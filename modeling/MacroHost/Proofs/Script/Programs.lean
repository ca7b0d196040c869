import MacroHost.Script.Chunk
import MacroHost.Script.Program
import MacroHost.Script.Value
import Mathlib

/-!
# Equality of programs

Whether two program trees are the same can be computed, so that a chunk can be read once and reasoned
about as a tree.
-/

namespace MacroHost
namespace Script

instance : DecidableEq Capture := fun first second =>
  decidable_of_iff
    (first.name = second.name ∧ first.isLocal = second.isLocal ∧ first.index = second.index) <| by
    obtain ⟨name, isLocal, index⟩ := first
    obtain ⟨otherName, otherLocal, otherIndex⟩ := second
    simp

mutual

/-- Whether two expressions are the same. -/
def Expr.same : Expr → Expr → Bool
  | .nil, .nil | .varargs, .varargs => true
  | .boolean a, .boolean b => a == b
  | .integer a, .integer b => a == b
  | .number a, .number b => Value.number a == Value.number b
  | .string a, .string b => decide (a = b)
  | .function a, .function b => a.same b
  | .localVar a i, .localVar b j | .upvalue a i, .upvalue b j => decide (a = b) && i == j
  | .index k a b, .index l c d => k == l && a.same c && b.same d
  | .call k a as, .call l b bs => k == l && a.same b && Expr.sameAll as bs
  | .method k m a n as, .method l o b p bs =>
      k == l && m == o && a.same b && decide (n = p) && Expr.sameAll as bs
  | .and a b, .and c d | .or a b, .or c d => a.same c && b.same d
  | .not a, .not b | .single a, .single b => a.same b
  | .length k a, .length l b => k == l && a.same b
  | .arithmetic k o a b, .arithmetic l p c d => k == l && o == p && a.same c && b.same d
  | .compare k o s n a b, .compare l p t m c d =>
      k == l && o == p && s == t && n == m && a.same c && b.same d
  | .concat k as, .concat l bs => k == l && Expr.sameAll as bs
  | .table k as, .table l bs => k == l && Entry.sameAll as bs
  | _, _ => false
termination_by structural first => first

/-- Whether two lists of expressions are the same. -/
def Expr.sameAll : List Expr → List Expr → Bool
  | [], [] => true
  | a :: as, b :: bs => a.same b && Expr.sameAll as bs
  | _, _ => false
termination_by structural first => first

/-- Whether two entries of a constructor are the same. -/
def Entry.same : Entry → Entry → Bool
  | .item a, .item b => a.same b
  | .pair k a b, .pair l c d => k == l && a.same c && b.same d
  | _, _ => false
termination_by structural first => first

/-- Whether two lists of entries are the same. -/
def Entry.sameAll : List Entry → List Entry → Bool
  | [], [] => true
  | a :: as, b :: bs => a.same b && Entry.sameAll as bs
  | _, _ => false
termination_by structural first => first

/-- Whether two statements are the same. -/
def Stmt.same : Stmt → Stmt → Bool
  | .evaluate a, .evaluate b | .untilTrue a, .untilTrue b => a.same b
  | .declare n p as, .declare m q bs => decide (n = m) && p == q && Expr.sameAll as bs
  | .declareFunction n a, .declareFunction m b => decide (n = m) && a.same b
  | .assign k as bs, .assign l cs ds => k == l && Expr.sameAll as cs && Expr.sameAll bs ds
  | .block as, .block bs | .repeatLoop as, .repeatLoop bs => Stmt.sameAll as bs
  | .whileLoop a as, .whileLoop b bs => a.same b && Stmt.sameAll as bs
  | .conditional a as bs, .conditional b cs ds =>
      a.same b && Stmt.sameAll as cs && Stmt.sameAll bs ds
  | .countLoop k n a b c as, .countLoop l m d e f bs =>
      k == l && decide (n = m) && a.same d && b.same e && c.same f && Stmt.sameAll as bs
  | .eachLoop k n as bs, .eachLoop l m cs ds =>
      k == l && decide (n = m) && Expr.sameAll as cs && Stmt.sameAll bs ds
  | .leave as, .leave bs => Expr.sameAll as bs
  | .leaveByCall k a as, .leaveByCall l b bs => k == l && a.same b && Expr.sameAll as bs
  | .leaveByMethod k m a n as, .leaveByMethod l o b p bs =>
      k == l && m == o && a.same b && decide (n = p) && Expr.sameAll as bs
  | .exitLoop, .exitLoop => true
  | .jump a, .jump b | .label a, .label b => decide (a = b)
  | _, _ => false
termination_by structural first => first

/-- Whether two lists of statements are the same. -/
def Stmt.sameAll : List Stmt → List Stmt → Bool
  | [], [] => true
  | a :: as, b :: bs => a.same b && Stmt.sameAll as bs
  | _, _ => false
termination_by structural first => first

/-- Whether two functions are the same. -/
def Code.same : Code → Code → Bool
  | .mk s f l m p v c as, .mk t g k n q w d bs =>
      decide (s = t) && f == g && l == k && m == n && decide (p = q) && v == w && decide (c = d)
        && Stmt.sameAll as bs
termination_by structural first => first

end

/-- Trees up to a size that are found to be the same are equal. -/
private structure SameUpTo (size : Nat) : Prop where
  expr : ∀ a b : Expr, sizeOf a ≤ size → a.same b = true → a = b
  exprs : ∀ as bs : List Expr, sizeOf as ≤ size → Expr.sameAll as bs = true → as = bs
  entry : ∀ a b : Entry, sizeOf a ≤ size → a.same b = true → a = b
  entries : ∀ as bs : List Entry, sizeOf as ≤ size → Entry.sameAll as bs = true → as = bs
  stmt : ∀ a b : Stmt, sizeOf a ≤ size → a.same b = true → a = b
  stmts : ∀ as bs : List Stmt, sizeOf as ≤ size → Stmt.sameAll as bs = true → as = bs
  code : ∀ a b : Code, sizeOf a ≤ size → a.same b = true → a = b

private theorem sameUpTo (size : Nat) : SameUpTo size := by
  induction size with
  | zero =>
      constructor
      · intro a b bounded
        cases a <;> simp at bounded
      · intro a b bounded
        cases a <;> simp at bounded
      · intro a b bounded
        cases a <;> simp at bounded
      · intro a b bounded
        cases a <;> simp at bounded
      · intro a b bounded
        cases a <;> simp at bounded
      · intro a b bounded
        cases a <;> simp at bounded
      · intro a b bounded
        cases a
        simp at bounded
  | succ size smaller =>
      obtain ⟨expr, exprs, entry, entries, stmt, stmts, code⟩ := smaller
      constructor
      · intro a b bounded same
        unfold Expr.same at same
        split at same
        all_goals grind -linarith
      · intro as bs bounded same
        unfold Expr.sameAll at same
        split at same
        all_goals grind -linarith
      · intro a b bounded same
        unfold Entry.same at same
        split at same
        all_goals grind -linarith
      · intro as bs bounded same
        unfold Entry.sameAll at same
        split at same
        all_goals grind -linarith
      · intro a b bounded same
        unfold Stmt.same at same
        split at same
        all_goals grind -linarith
      · intro as bs bounded same
        unfold Stmt.sameAll at same
        split at same
        all_goals grind -linarith
      · intro a b bounded same
        unfold Code.same at same
        split at same
        all_goals grind -linarith

/-- Functions that are found to be the same are equal. -/
theorem Code.eq_of_same {first second : Code} (same : first.same second = true) :
    first = second :=
  (sameUpTo (sizeOf first)).code first second (Nat.le_refl _) same

/-- Whether a chunk is read as a program. -/
def readsAs (content name : Text.Bytes) (program : Code) : Bool :=
  match readChunk content name 0 with
  | .ok code => code.same program
  | .error _ => false

theorem readChunk_of_readsAs {content name : Text.Bytes} {program : Code}
    (reads : readsAs content name program = true) : readChunk content name 0 = .ok program := by
  rw [readsAs] at reads
  split at reads
  · rename_i code read
    rw [read, Code.eq_of_same reads]
  · simp at reads

end Script
end MacroHost
