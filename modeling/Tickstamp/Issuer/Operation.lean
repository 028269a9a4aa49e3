import Tickstamp.Issuer.Basic
/-!
# Operations on an issuer

Everything that can be asked of an issuer, as data, so that a whole history is a list of operations
and its answers a list of replies. A reply that refuses may still have issued stamps before; these
are told apart from the reply.
-/
namespace Tickstamp

inductive Operation where
  | bind (worker : Int)
  | bindFrom (source : Except String Int)
  | worker
  | generate
  | generateBatch (count : Nat)
  | generateText
  | generateTexts (count : Nat)
  | generateKey
  | generateKeys (count : Nat)
  | decode (stamp : Stamp)
  | decodeText (text : String)
  | decodeKey (key : Key)

inductive Reply where
  | machine (number : UInt64)
  | stamp (stamp : Stamp)
  | stamps (stamps : List Stamp)
  | text (text : String)
  | texts (texts : List String)
  | key (key : Key)
  | keys (keys : List Key)
  | origin (origin : Origin)
  | halted (halt : Halt)
  deriving DecidableEq

namespace Reply

def ofResult {α : Type} (reply : α → Reply) : Except Halt α → Reply
  | .ok a => reply a
  | .error halt => .halted halt

def ofExcept {α : Type} (reply : α → Reply) (result : Except Fault α) : Reply :=
  ofResult reply (Halt.ofExcept result)

end Reply

namespace Issuer

variable {σ : Type}

structure Performed (σ : Type) where
  reply : Reply
  /-- The stamps that the request issued, in order, whether or not the reply shows them. -/
  issued : List Stamp
  issuer : Issuer
  clock : σ

/-- The end of a request that issues nothing and leaves the clock alone. -/
def Performed.quietly {α : Type} (reply : α → Reply) (result : Except Fault α) (k : Issuer)
    (clock : σ) : Performed σ :=
  ⟨.ofExcept reply result, [], k, clock⟩

def Performed.ofRun {α : Type} (reply : α → Reply) (r : Run α σ) : Performed σ :=
  ⟨.ofResult reply r.result, r.issued, r.issuer, r.clock⟩

variable [Clock σ]

/-- Answers one request; a blocking one polls at most `patience` times for each stamp. -/
def perform (k : Issuer) (patience : Nat) (clock : σ) : Operation → Performed σ
  | .bind worker =>
    let (result, after) := k.bind worker
    .quietly .machine result after clock
  | .bindFrom source =>
    let (result, after) := k.bindFrom source
    .quietly .machine result after clock
  | .worker => .quietly .machine k.worker k clock
  | .generate => .ofRun .stamp (k.generate patience clock)
  | .generateBatch count => .ofRun .stamps (k.generateBatch patience count clock)
  | .generateText => .ofRun .text (k.generateText patience clock)
  | .generateTexts count => .ofRun .texts (k.generateTexts patience count clock)
  | .generateKey => .ofRun .key (k.generateKey patience clock)
  | .generateKeys count => .ofRun .keys (k.generateKeys patience count clock)
  | .decode stamp => .quietly .origin (k.decode stamp) k clock
  | .decodeText text => .quietly .origin (k.decodeText text) k clock
  | .decodeKey key => .quietly .origin (k.decodeKey key) k clock

/-- Answers requests one after the other, each on the issuer and the clock that the one before has
left. -/
def performAll (k : Issuer) (patience : Nat) (clock : σ) : List Operation → List (Performed σ)
  | [] => []
  | request :: rest =>
    let done := k.perform patience clock request
    done :: done.issuer.performAll patience done.clock rest

end Issuer
end Tickstamp
