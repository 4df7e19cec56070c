import Scenograph.Fault
import Scenograph.Json.Reader

namespace Scenograph

inductive Refusal where
  | malformed
  | faulty (fault : Fault)
  deriving DecidableEq, Repr

abbrev Decoder (α : Type) := Nat → Json → Except Refusal α

namespace Json

def maxDepth : Nat := 127

mutual

def isWhole : Json → Bool
  | .arr items => allWhole items
  | .obj members => membersWhole members
  | .cut => false
  | _ => true

def allWhole : List Json → Bool
  | [] => true
  | v :: rest => isWhole v && allWhole rest

def membersWhole : List (Option String × Json) → Bool
  | [] => true
  | (_, v) :: rest => isWhole v && membersWhole rest

end

end Json

namespace Decoder

variable {α β : Type}

def map (f : α → β) (decode : Decoder α) : Decoder β :=
  fun depth v => (decode depth v).map f

def float : Decoder Float
  | _, .int n =>
      let x := Decimal.toFloat (decide (n < 0)) ⟨n.natAbs, 0⟩
      if x.isFinite then .ok x else .error .malformed
  | _, .float x => if x.isFinite then .ok x else .error .malformed
  | _, _ => .error .malformed

def natBelow (limit : Nat) : Decoder Nat
  | _, .int n => if 0 ≤ n ∧ n < limit then .ok n.toNat else .error .malformed
  | _, _ => .error .malformed

def bool : Decoder Bool
  | _, .bool b => .ok b
  | _, _ => .error .malformed

def string : Decoder String
  | _, .str (some s) => .ok s
  | _, _ => .error .malformed

def nullable (decode : Decoder α) : Decoder (Option α)
  | _, .null => .ok none
  | depth, v => (decode depth v).map some

def list (decode : Decoder α) : Decoder (List α)
  | depth + 1, .arr items => items.mapM (decode depth)
  | _, _ => .error .malformed

def entries (decode : Decoder α) : Decoder (List (String × α))
  | depth + 1, .obj members =>
      members.mapM fun m =>
        match m.1 with
        | some key => (decode depth m.2).map fun a => (key, a)
        | none => .error .malformed
  | _, _ => .error .malformed

end Decoder

inductive Variant (α : Type) where
  | plain (value : α)
  | content (decode : Decoder α)

namespace Decoder

variable {α : Type}

def oneOf (variants : List (String × Variant α)) : Decoder α
  | _, .str (some name) =>
      match variants.lookup name with
      | some (.plain a) => .ok a
      | _ => .error .malformed
  | depth + 1, .obj ((some name, v) :: rest) => do
      let a ← match variants.lookup name, v with
        | some (.plain a), .null => .ok a
        | some (.content decode), v => decode depth v
        | _, _ => .error .malformed
      if rest.isEmpty then .ok a else .error .malformed
  | _, _ => .error .malformed

def named (name : α → String) (all : List α) : Decoder α :=
  oneOf (all.map fun a => (name a, .plain a))

end Decoder

structure Members where
  entries : List (Option String × Json)
  positional : Bool

abbrev Located (α : Type) := Except (Nat × Refusal) α

namespace Located

variable {α β : Type}

def placed (place : Nat) : Except Refusal α → Located α
  | .ok a => .ok a
  | .error e => .error (place, e)

/-- Of two refusals the one that stands first in the text is kept. -/
def both : Located (α → β) → Located α → Located β
  | .ok f, .ok a => .ok (f a)
  | .ok _, .error e => .error e
  | .error e, .ok _ => .error e
  | .error e, .error e' => .error (if e'.1 < e.1 then e' else e)

end Located

structure Fields (α : Type) where
  keys : List String
  read : Nat → Members → Located α

namespace Fields

variable {α β : Type}

def lookup (key : String) : Nat → List (Option String × Json) → Option (Nat × Json)
  | _, [] => none
  | place, (k, v) :: rest => if k = some key then some (place, v) else lookup key (place + 1) rest

def field (key : String) (decode : Decoder α) (absent : Members → Except Refusal α) : Fields α where
  keys := [key]
  read depth members :=
    match lookup key 0 members.entries with
    | some (place, v) => Located.placed place (decode depth v)
    | none => Located.placed members.entries.length (absent members)

def required (key : String) (decode : Decoder α) : Fields α :=
  field key decode fun _ => .error .malformed

def optional (key : String) (decode : Decoder α) : Fields (Option α) :=
  field key decode.nullable fun members =>
    if members.positional then .error .malformed else .ok none

def defaulted (key : String) (value : α) (decode : Decoder α) : Fields α :=
  field key decode fun _ => .ok value

def nullable (key : String) (decode : Decoder α) : Fields (Option α) :=
  defaulted key none decode.nullable

def andThen (first : Fields (α → β)) (next : Fields α) : Fields β where
  keys := first.keys ++ next.keys
  read depth members := Located.both (first.read depth members) (next.read depth members)

def start (make : α) : Fields α where
  keys := []
  read _ _ := .ok make

def stray (keys seen : List String) : Nat → List (Option String × Json) → Option Nat
  | _, [] => none
  | place, (none, _) :: _ => some place
  | place, (some key, v) :: rest =>
      if keys.contains key then
        if seen.contains key then some place else stray keys (key :: seen) (place + 1) rest
      else if v.isWhole then stray keys seen (place + 1) rest
      else some place

def finish (fields : Fields α) (depth : Nat) (members : Members) : Except Refusal α :=
  let checked : Located Unit :=
    match stray fields.keys [] 0 members.entries with
    | some place => .error (place, .malformed)
    | none => .ok ()
  match Located.both (checked.map fun _ a => a) (fields.read depth members) with
  | .ok a => .ok a
  | .error e => .error e.2

def byPosition (keys : List String) : List Json → List (Option String × Json)
  | [] => []
  | v :: rest =>
      match keys with
      | key :: keys => (some key, v) :: byPosition keys rest
      | [] => [(none, v)]

end Fields

def Decoder.record {α : Type} (fields : Fields α) : Decoder α
  | depth + 1, .obj members => fields.finish depth { entries := members, positional := false }
  | depth + 1, .arr items =>
      fields.finish depth { entries := Fields.byPosition fields.keys items, positional := true }
  | _, _ => .error .malformed

def Decoder.decodeIn {α : Type} (f : Json.Format) (decode : Decoder α) (text : String) :
    Except Refusal α := do
  let reading := f.parse text
  let a ← decode Json.maxDepth reading.value
  if reading.finished then .ok a else .error .malformed

def Decoder.decodeText {α : Type} (decode : Decoder α) (text : String) : Except Refusal α :=
  decode.decodeIn .standard text

end Scenograph
