import PascalUnit.Toml.Real

/-!
# TOML values

A configuration file is a table of values.  Dates and times are kept as their
normal text.
-/

namespace PascalUnit
namespace Toml

inductive Value where
  | text (s : String)
  | integer (n : Int)
  | real (r : Real)
  | boolean (b : Bool)
  | array (items : List Value)
  | table (entries : List (String × Value))
  deriving Repr

namespace Value

mutual
def decEq : (v w : Value) → Decidable (v = w)
  | text s, w =>
      match w with
      | text t => decidable_of_iff (s = t) (by simp)
      | integer _ | real _ | boolean _ | array _ | table _ => isFalse nofun
  | integer m, w =>
      match w with
      | integer n => decidable_of_iff (m = n) (by simp)
      | text _ | real _ | boolean _ | array _ | table _ => isFalse nofun
  | real q, w =>
      match w with
      | real r => decidable_of_iff (q = r) (by simp)
      | text _ | integer _ | boolean _ | array _ | table _ => isFalse nofun
  | boolean b, w =>
      match w with
      | boolean c => decidable_of_iff (b = c) (by simp)
      | text _ | integer _ | real _ | array _ | table _ => isFalse nofun
  | array vs, w =>
      match w with
      | array ws => @decidable_of_iff _ (vs = ws) (by simp) (decEqAll vs ws)
      | text _ | integer _ | real _ | boolean _ | table _ => isFalse nofun
  | table es, w =>
      match w with
      | table fs => @decidable_of_iff _ (es = fs) (by simp) (decEqEntries es fs)
      | text _ | integer _ | real _ | boolean _ | array _ => isFalse nofun

def decEqAll : (vs ws : List Value) → Decidable (vs = ws)
  | [], [] => isTrue rfl
  | [], _ :: _ => isFalse nofun
  | _ :: _, [] => isFalse nofun
  | v :: vs, w :: ws =>
      match decEq v w, decEqAll vs ws with
      | isTrue h, isTrue hs => isTrue (by rw [h, hs])
      | isFalse h, _ => isFalse (by simp [h])
      | _, isFalse hs => isFalse (by simp [hs])

def decEqEntries : (es fs : List (String × Value)) → Decidable (es = fs)
  | [], [] => isTrue rfl
  | [], _ :: _ => isFalse nofun
  | _ :: _, [] => isFalse nofun
  | (name, v) :: es, (name', w) :: fs =>
      match decEq v w, decEqEntries es fs with
      | isTrue h, isTrue hs => decidable_of_iff (name = name') (by simp [h, hs])
      | isFalse h, _ => isFalse (by simp [h])
      | _, isFalse hs => isFalse (by simp [hs])
end

instance : DecidableEq Value := decEq

end Value
end Toml
end PascalUnit
