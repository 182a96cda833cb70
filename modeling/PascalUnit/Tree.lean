import PascalUnit.Rule

/-!
# Concrete trees

A tree keeps every token of a unit: leaves carry the text of one token, and
every other node is one application of a rule with its parts in order.

## Views

`render` is the bracketed text of a tree, `text` joins its leaves, and `walk`
lists its nodes, parents first, with their depths.  `Pending` visits the same
nodes one by one.
-/

namespace PascalUnit

inductive Tree where
  | leaf (text : String)
  | node (rule : Rule) (children : List Tree)
  deriving Repr

namespace Tree

instance : Inhabited Tree := ⟨.leaf ""⟩

mutual
def decEq : (t u : Tree) → Decidable (t = u)
  | leaf a, leaf b => decidable_of_iff (a = b) (by simp)
  | leaf _, node _ _ => isFalse nofun
  | node _ _, leaf _ => isFalse nofun
  | node r ts, node s us =>
      match decEqAll ts us with
      | isTrue h => decidable_of_iff (r = s) (by simp [h])
      | isFalse h => isFalse (by simp [h])

def decEqAll : (ts us : List Tree) → Decidable (ts = us)
  | [], [] => isTrue rfl
  | [], _ :: _ => isFalse nofun
  | _ :: _, [] => isFalse nofun
  | t :: ts, u :: us =>
      match decEq t u, decEqAll ts us with
      | isTrue h, isTrue hs => isTrue (by rw [h, hs])
      | isFalse h, _ => isFalse (by simp [h])
      | _, isFalse hs => isFalse (by simp [hs])
end

instance : DecidableEq Tree := decEq

def children : Tree → List Tree
  | leaf _ => []
  | node _ ts => ts

def rule? : Tree → Option Rule
  | leaf _ => none
  | node r _ => some r

def isNodeOf (r : Rule) (t : Tree) : Bool :=
  decide (t.rule? = some r)

/-!
## Bracketed text

A leaf is written verbatim, a node as its rule and its children between
parentheses, all separated by single spaces.
-/

mutual
def spell : Tree → List Char
  | leaf text => text.toList
  | node r ts => '(' :: r.name.toList ++ spellAll ts ++ [')']

/-- The children of a node, each after a space. -/
def spellAll : List Tree → List Char
  | [] => []
  | t :: ts => ' ' :: spell t ++ spellAll ts
end

def render (t : Tree) : String :=
  String.ofList t.spell

/-!
## Leaves
-/

mutual
def leafTexts : Tree → List String
  | leaf text => [text]
  | node _ ts => leafTextsAll ts

def leafTextsAll : List Tree → List String
  | [] => []
  | t :: ts => leafTexts t ++ leafTextsAll ts
end

/-- The leaves of a tree joined by single spaces. -/
def text (t : Tree) : String :=
  " ".intercalate t.leafTexts

/-!
## Walk
-/

mutual
/-- The nodes of a tree whose root has depth `depth`, parents before children. -/
def walkFrom (depth : Nat) : Tree → List (Nat × Tree)
  | leaf text => [(depth, leaf text)]
  | node r ts => (depth, node r ts) :: walkAllFrom (depth + 1) ts

def walkAllFrom (depth : Nat) : List Tree → List (Nat × Tree)
  | [] => []
  | t :: ts => walkFrom depth t ++ walkAllFrom depth ts
end

def walk (t : Tree) : List (Nat × Tree) :=
  walkFrom 0 t

/-!
## Pending nodes

The nodes of a tree can also be asked for one at a time.  What is left to visit
is a stack of subtrees; visiting the top one puts its children in its place.
-/

mutual
def size : Tree → Nat
  | leaf _ => 1
  | node _ ts => sizeAll ts + 1

def sizeAll : List Tree → Nat
  | [] => 0
  | t :: ts => size t + sizeAll ts
end

/-- Subtrees still to be visited, the next one first. -/
structure Pending where
  stack : List Tree
  deriving Repr

namespace Pending

def start (t : Tree) : Pending := ⟨[t]⟩

def next? : Pending → Option (Tree × Pending)
  | ⟨[]⟩ => none
  | ⟨t :: ts⟩ => some (t, ⟨t.children ++ ts⟩)

end Pending

theorem sizeAll_append (a b : List Tree) :
    sizeAll (a ++ b) = sizeAll a + sizeAll b := by
  induction a with
  | nil => simp [sizeAll]
  | cons t a ih => simp [sizeAll, ih, Nat.add_assoc]

theorem size_eq (t : Tree) : t.size = sizeAll t.children + 1 := by
  cases t <;> simp [size, children, sizeAll]

theorem Pending.sizeAll_lt_of_next? {p q : Pending} {t : Tree}
    (h : p.next? = some (t, q)) : sizeAll q.stack < sizeAll p.stack := by
  rcases p with ⟨stack⟩
  cases stack with
  | nil => simp [Pending.next?] at h
  | cons u us =>
      simp only [Pending.next?, Option.some.injEq, Prod.mk.injEq] at h
      rcases h with ⟨rfl, rfl⟩
      simp only [sizeAll_append, sizeAll, size_eq u]
      omega

def Pending.toList (p : Pending) : List Tree :=
  match _h : p.next? with
  | none => []
  | some (t, q) => t :: toList q
termination_by sizeAll p.stack
decreasing_by exact Pending.sizeAll_lt_of_next? (by assumption)

def descendants (t : Tree) : List Tree :=
  (Pending.start t).toList

/-!
## Children by rule
-/

def childrenOf (r : Rule) (t : Tree) : List Tree :=
  t.children.filter (isNodeOf r)

def child? (r : Rule) (index : Nat) (t : Tree) : Option Tree :=
  (t.childrenOf r)[index]?

def first? (r : Rule) (t : Tree) : Option Tree :=
  t.child? r 0

def ownLeaves (t : Tree) : List String :=
  t.children.filterMap fun
    | leaf text => some text
    | node _ _ => none

end Tree
end PascalUnit
