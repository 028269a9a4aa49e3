import Tickstamp.CommandLine.Invocation

/-!
# Settings make a configuration

Settings are accepted exactly if their three widths are a layout and the
configuration that they make on it is valid. Nothing else is looked at, and
nothing is changed afterwards. How settings are given is not considered.
-/

namespace Tickstamp.CommandLine.Given

/-- The configuration that the settings make on a layout. -/
def on (g : Given) (layout : Layout) : Config where
  epoch := g.epochMillis.getD ({} : Config).epoch
  layout
  asString := g.asString.getD false
  lag := match g.rollback.getD .wait with
    | .wait => .wait (g.maxDriftMillis.getD LagPolicy.standardLimit)
    | .fail => .fail
  carryOver := match g.resetThreshold with
    | some threshold => .upTo threshold
    | none => .half

theorem config_eq_ok_iff (g : Given) (c : Config) :
    g.config = .ok c ↔ ∃ l, Layout.ofBits (g.timestampBits.getD 41) (g.machineBits.getD 10)
      (g.sequenceBits.getD 12) = .ok l ∧ (g.on l).validate = .ok () ∧ c = g.on l := by
  rw [config]
  cases gate : Layout.ofBits (g.timestampBits.getD 41) (g.machineBits.getD 10)
      (g.sequenceBits.getD 12) with
  | error fault =>
    constructor
    · intro accepted
      cases accepted
    · rintro ⟨_, ⟨⟩, _⟩
  | ok l =>
    change ((g.on l).validate.mapError Failure.refused >>= fun _ => .ok (g.on l)) = .ok c ↔ _
    cases valid : (g.on l).validate with
    | error fault =>
      constructor
      · intro accepted
        cases accepted
      · rintro ⟨_, ⟨⟩, accepted, _⟩
        cases valid.symm.trans accepted
    | ok _ =>
      constructor
      · intro accepted
        exact ⟨l, rfl, valid, (Except.ok.inj accepted).symm⟩
      · rintro ⟨_, ⟨⟩, _, rfl⟩
        rfl

end Tickstamp.CommandLine.Given
