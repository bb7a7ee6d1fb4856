import EventScript.Node.Basic

/-! Equality of trees is decidable: a comparison by recursion, and the proof that it tells trees
apart exactly when they differ. -/
namespace EventScript.Node

mutual

def same : Node → Node → Bool
  | block ss p, block ss' p' => sameAll ss ss' && p == p'
  | assign t v p, assign t' v' p' => same t t' && same v v' && p == p'
  | ifWhen c t e f p, ifWhen c' t' e' f' p' =>
      same c c' && same t t' && sameSlot e e' && f == f' && p == p'
  | foldedIf o l r t e f p, foldedIf o' l' r' t' e' f' p' =>
      o == o' && same l l' && same r r' && same t t' && sameSlot e e' && f == f' && p == p'
  | whileLoop c b p, whileLoop c' b' p' => same c c' && same b b' && p == p'
  | foldedWhile o l r b p, foldedWhile o' l' r' b' p' =>
      o == o' && same l l' && same r r' && same b b' && p == p'
  | declare d p, declare d' p' => d == d' && p == p'
  | invoke c as p, invoke c' as' p' => c == c' && sameAll as as' && p == p'
  | binary o l r p, binary o' l' r' p' => o == o' && same l l' && same r r' && p == p'
  | unary o n p, unary o' n' p' => o == o' && same n n' && p == p'
  | immediate v p, immediate v' p' => v == v' && p == p'
  | cell a d p, cell a' d' p' => a == a' && d == d' && p == p'
  | element a r i p, element a' r' i' p' => a == a' && r == r' && same i i' && p == p'
  | _, _ => false

def sameAll : List Node → List Node → Bool
  | [], [] => true
  | n :: ns, n' :: ns' => same n n' && sameAll ns ns'
  | _, _ => false

def sameSlot : Option Node → Option Node → Bool
  | none, none => true
  | some n, some n' => same n n'
  | _, _ => false

end

mutual

theorem same_refl : (n : Node) → same n n = true
  | block ss _ => by simp [same, sameAll_refl ss]
  | assign t v _ => by simp [same, same_refl t, same_refl v]
  | ifWhen c t e _ _ => by simp [same, same_refl c, same_refl t, sameSlot_refl e]
  | foldedIf _ l r t e _ _ => by
      simp [same, same_refl l, same_refl r, same_refl t, sameSlot_refl e]
  | whileLoop c b _ => by simp [same, same_refl c, same_refl b]
  | foldedWhile _ l r b _ => by simp [same, same_refl l, same_refl r, same_refl b]
  | declare _ _ => by simp [same]
  | invoke _ as _ => by simp [same, sameAll_refl as]
  | binary _ l r _ => by simp [same, same_refl l, same_refl r]
  | unary _ n _ => by simp [same, same_refl n]
  | immediate _ _ => by simp [same]
  | cell _ _ _ => by simp [same]
  | element _ _ i _ => by simp [same, same_refl i]

theorem sameAll_refl : (ns : List Node) → sameAll ns ns = true
  | [] => by simp [sameAll]
  | n :: ns => by simp [sameAll, same_refl n, sameAll_refl ns]

theorem sameSlot_refl : (slot : Option Node) → sameSlot slot slot = true
  | none => by simp [sameSlot]
  | some n => by simp [sameSlot, same_refl n]

end

mutual

theorem eq_of_same : (a b : Node) → same a b = true → a = b
  | block ss _, b, h => by
      cases b <;> simp [same] at h
      case block ss' _ => rw [eq_of_sameAll ss ss' h.1, h.2]
  | assign t v _, b, h => by
      cases b <;> simp [same] at h
      case assign t' v' _ => rw [eq_of_same t t' h.1.1, eq_of_same v v' h.1.2, h.2]
  | ifWhen c t e _ _, b, h => by
      cases b <;> simp [same] at h
      case ifWhen c' t' e' _ _ =>
        rw [eq_of_same c c' h.1.1.1.1, eq_of_same t t' h.1.1.1.2, eq_of_sameSlot e e' h.1.1.2,
          h.1.2, h.2]
  | foldedIf _ l r t e _ _, b, h => by
      cases b <;> simp [same] at h
      case foldedIf _ l' r' t' e' _ _ =>
        rw [h.1.1.1.1.1.1, eq_of_same l l' h.1.1.1.1.1.2, eq_of_same r r' h.1.1.1.1.2,
          eq_of_same t t' h.1.1.1.2, eq_of_sameSlot e e' h.1.1.2, h.1.2, h.2]
  | whileLoop c d _, b, h => by
      cases b <;> simp [same] at h
      case whileLoop c' d' _ => rw [eq_of_same c c' h.1.1, eq_of_same d d' h.1.2, h.2]
  | foldedWhile _ l r d _, b, h => by
      cases b <;> simp [same] at h
      case foldedWhile _ l' r' d' _ =>
        rw [h.1.1.1.1, eq_of_same l l' h.1.1.1.2, eq_of_same r r' h.1.1.2,
          eq_of_same d d' h.1.2, h.2]
  | declare _ _, b, h => by
      cases b <;> simp [same] at h
      case declare => rw [h.1, h.2]
  | invoke _ as _, b, h => by
      cases b <;> simp [same] at h
      case invoke _ as' _ => rw [h.1.1, eq_of_sameAll as as' h.1.2, h.2]
  | binary _ l r _, b, h => by
      cases b <;> simp [same] at h
      case binary _ l' r' _ =>
        rw [h.1.1.1, eq_of_same l l' h.1.1.2, eq_of_same r r' h.1.2, h.2]
  | unary _ n _, b, h => by
      cases b <;> simp [same] at h
      case unary _ n' _ => rw [h.1.1, eq_of_same n n' h.1.2, h.2]
  | immediate _ _, b, h => by
      cases b <;> simp [same] at h
      case immediate => rw [h.1, h.2]
  | cell _ _ _, b, h => by
      cases b <;> simp [same] at h
      case cell => rw [h.1.1, h.1.2, h.2]
  | element _ _ i _, b, h => by
      cases b <;> simp [same] at h
      case element _ _ i' _ => rw [h.1.1.1, h.1.1.2, eq_of_same i i' h.1.2, h.2]

theorem eq_of_sameAll : (as bs : List Node) → sameAll as bs = true → as = bs
  | [], bs, h => by cases bs <;> simp [sameAll] at h ⊢
  | a :: as, bs, h => by
      cases bs <;> simp [sameAll] at h
      case cons b bs => rw [eq_of_same a b h.1, eq_of_sameAll as bs h.2]

theorem eq_of_sameSlot : (a b : Option Node) → sameSlot a b = true → a = b
  | none, b, h => by cases b <;> simp [sameSlot] at h ⊢
  | some a, b, h => by
      cases b <;> simp [sameSlot] at h
      case some b => rw [eq_of_same a b h]

end

theorem same_iff (a b : Node) : same a b = true ↔ a = b :=
  ⟨eq_of_same a b, fun h => h ▸ same_refl a⟩

instance : DecidableEq Node := fun a b =>
  decidable_of_iff (same a b = true) (same_iff a b)

end EventScript.Node
