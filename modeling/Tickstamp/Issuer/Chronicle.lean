import Tickstamp.Issuer.Operation
/-!
# Chronicles

What requests to an issuer bring about, in order: a worker is bound, a stamp is issued. A chronicle
keeps the stamps that no reply shows, and leaves out the requests that bring about nothing.
-/
namespace Tickstamp

inductive Happening where
  /-- A binding answered with this machine number. -/
  | bound (machine : UInt64)
  | issued (stamp : Stamp)
  deriving DecidableEq

namespace Happening

def stamp? : Happening → Option Stamp
  | .bound _ => none
  | .issued stamp => some stamp

def stamps (happenings : List Happening) : List Stamp :=
  happenings.filterMap stamp?

/-- The answer of the latest binding, if there has been one since `earlier`. -/
def latestBound (earlier : Option UInt64) : List Happening → Option UInt64
  | [] => earlier
  | .bound machine :: rest => latestBound (some machine) rest
  | .issued _ :: rest => latestBound earlier rest

end Happening

namespace Issuer

def boundBy : Except Fault UInt64 → List Happening
  | .ok machine => [.bound machine]
  | .error _ => []

variable {σ : Type}

/-- What a request brings about. Of those that reply with a number only the bindings bind. -/
def Performed.happenings (done : Performed σ) (request : Operation) : List Happening :=
  let bindings := match request, done.reply with
    | .bind _, .machine number | .bindFrom _, .machine number => [.bound number]
    | _, _ => []
  bindings ++ done.issued.map .issued

variable [Clock σ]

/-- What a list of requests brings about, the issuer and the clock after it. -/
def chronicle (k : Issuer) (patience : Nat) (clock : σ) :
    List Operation → List Happening × Issuer × σ
  | [] => ([], k, clock)
  | request :: rest =>
    let done := k.perform patience clock request
    let (later, k, clock) := done.issuer.chronicle patience done.clock rest
    (done.happenings request ++ later, k, clock)

end Issuer
end Tickstamp
