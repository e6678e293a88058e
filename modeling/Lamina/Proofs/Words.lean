import Mathlib
import Lamina.Word
import Lamina.Proofs.Outcome
import Lamina.Proofs.Strided

/-!
# When sizes have words

A size is let through unchanged or not at all, so that whatever has been computed in words is what
natural numbers give. For a product taken from the left this is `Site.product_eq_ok`: it is the
number of positions, and there is one if and only if the product of every beginning of the list has
a word. The induction is over the list with what has been multiplied so far.
-/

namespace Lamina

variable {site : Site} {sizes : List Nat} {n m : Nat} {f : Fault}

namespace Site

@[simp] theorem word_eq_ok : site.word n = .ok m ↔ n < wordLimit ∧ n = m := by
  unfold word
  split <;> simp_all

@[simp] theorem difference_eq_ok {taken : Nat} :
    site.difference n taken = .ok m ↔ taken ≤ n ∧ n - taken = m := by
  unfold difference
  split <;> simp_all

end Site

/-- Entries each of which is known, and given under a condition, are known all together. -/
theorem mapM_eq_ok_map {α β : Type} {f : α → Except Fault β} {p : α → Prop} {g : α → β}
    {l : List α} {l' : List β} (h : ∀ a ∈ l, ∀ b, f a = .ok b ↔ p a ∧ g a = b) :
    l.mapM f = .ok l' ↔ (∀ a ∈ l, p a) ∧ l.map g = l' := by
  induction l generalizing l' with
  | nil => simp [List.mapM_nil]
  | cons a l ih =>
    rw [List.mapM_cons, bind_eq_ok]
    simp only [bind_eq_ok, pure_eq_ok, h a List.mem_cons_self,
      ih fun b hb => h b (List.mem_cons_of_mem a hb)]
    constructor
    · rintro ⟨_, ⟨ha, rfl⟩, _, ⟨hl, rfl⟩, rfl⟩
      exact ⟨List.forall_mem_cons.2 ⟨ha, hl⟩, rfl⟩
    · rintro ⟨hall, rfl⟩
      obtain ⟨ha, hl⟩ := List.forall_mem_cons.1 hall
      exact ⟨g a, ⟨ha, rfl⟩, l.map g, ⟨hl, rfl⟩, rfl⟩

/-- Sizes that are let through one after the other. -/
theorem mapM_word_eq_ok {α : Type} {size : α → Nat} {l : List α} :
    l.mapM (fun a => site.word (size a)) = .ok sizes ↔
      (∀ a ∈ l, size a < wordLimit) ∧ l.map size = sizes :=
  mapM_eq_ok_map fun _ _ _ => Site.word_eq_ok

namespace Yields

variable {P : Fault → Prop}

theorem word (h : wordLimit ≤ n → P ⟨site, .word (.overflow n)⟩) :
    Yields P (site.word n) fun m => m = n ∧ n < wordLimit := by
  unfold Site.word
  split
  · rename_i hn
    exact .ok ⟨rfl, hn⟩
  · rename_i hn
    exact .fail (h (not_lt.1 hn))

theorem word_own : Yields (Fault.Own site) (site.word n) fun m => m = n ∧ n < wordLimit :=
  .word fun _ => ⟨rfl, .inl rfl⟩

theorem difference_own {taken : Nat} :
    Yields (Fault.Own site) (site.difference n taken) fun m => taken ≤ n ∧ m = n - taken := by
  unfold Site.difference
  split
  · rename_i hle
    exact .ok ⟨hle, rfl⟩
  · exact .own rfl

end Yields

theorem one_lt_wordLimit : 1 < wordLimit := by decide

theorem Shape.extent_lt {s : Shape} (h : ∀ d ∈ s.dims, d < wordLimit) (axis : Nat) :
    s.extent axis < wordLimit := by
  rw [extent, List.getD_eq_getElem?_getD]
  cases hd : s.dims[axis]? with
  | none => exact one_lt_wordLimit
  | some d => exact h d (List.mem_of_getElem? hd)

/-! ### Products -/

/-- A product is continued with what has been multiplied so far. -/
theorem foldlM_word_eq_ok (hn : n < wordLimit) :
    sizes.foldlM (fun n size => site.word (n * size)) n = .ok m ↔
      (∀ i ≤ sizes.length, n * positions (sizes.take i) < wordLimit) ∧
        n * positions sizes = m := by
  induction sizes generalizing n with
  | nil => simp [hn]
  | cons size sizes ih =>
    rw [List.foldlM_cons, bind_eq_ok]
    constructor
    · rintro ⟨_, hword, hrest⟩
      obtain ⟨hlt, rfl⟩ := Site.word_eq_ok.1 hword
      obtain ⟨hall, rfl⟩ := (ih hlt).1 hrest
      refine ⟨fun i hi => ?_, (mul_assoc _ _ _).symm⟩
      cases i with
      | zero => simpa using hn
      | succ i =>
        rw [List.take_succ_cons, positions_cons, ← mul_assoc]
        exact hall i (Nat.le_of_succ_le_succ hi)
    · rintro ⟨hall, rfl⟩
      have hlt : n * size < wordLimit := by simpa using hall 1 (by simp)
      refine ⟨n * size, Site.word_eq_ok.2 ⟨hlt, rfl⟩, (ih hlt).2 ⟨fun i hi => ?_, ?_⟩⟩
      · rw [mul_assoc, ← positions_cons, ← List.take_succ_cons]
        exact hall (i + 1) (Nat.succ_le_succ hi)
      · rw [positions_cons, mul_assoc]

/-- **Products in words.** -/
theorem Site.product_eq_ok :
    site.product sizes = .ok n ↔ ProductFits sizes ∧ positions sizes = n := by
  rw [product, foldlM_word_eq_ok (by decide)]
  simp only [one_mul, ProductFits]

theorem ProductFits.positions_lt (h : ProductFits sizes) : positions sizes < wordLimit := by
  simpa using h sizes.length le_rfl

/-- A product that cannot be taken is given up. -/
theorem Site.product_eq_error (h : site.product sizes = .error f) :
    ¬ ProductFits sizes ∧ ∃ size, f = ⟨site, .word (.overflow size)⟩ := by
  refine ⟨fun hfits => ?_, ?_⟩
  · rw [product_eq_ok.2 ⟨hfits, rfl⟩] at h
    cases h
  · have hfault : Yields (fun f => ∃ size, f = ⟨site, .word (.overflow size)⟩)
        (site.product sizes) fun _ => True :=
      Yields.foldlM (fun n size _ _ => (Yields.word fun _ => ⟨_, rfl⟩).imp fun _ _ => trivial)
        trivial
    exact hfault.fault h

namespace Yields

variable {P : Fault → Prop}

theorem product (h : ∀ size, ¬ ProductFits sizes → P ⟨site, .word (.overflow size)⟩) :
    Yields P (site.product sizes) fun n => n = positions sizes ∧ ProductFits sizes := by
  cases hproduct : site.product sizes with
  | ok n =>
    obtain ⟨hfits, rfl⟩ := Site.product_eq_ok.1 hproduct
    exact ⟨rfl, hfits⟩
  | error f =>
    obtain ⟨hfits, size, rfl⟩ := Site.product_eq_error hproduct
    exact h size hfits

/-- When a computation that fails in one of two ways fails fatally. -/
theorem fatal_iff {Q : α → Prop} {A B : Prop} {x : Except Fault α}
    (h : Yields (fun f => f.kind = .malformed ∧ A ∨ f.kind = .fatal ∧ B) x Q) (hA : A → ¬ B)
    (hQ : ∀ a, Q a → ¬ B) : (∃ f, x = .error f ∧ f.kind = .fatal) ↔ B := by
  constructor
  · rintro ⟨f, hf, hfatal⟩
    rcases h.fault hf with ⟨hkind, -⟩ | ⟨-, hB⟩
    · exact absurd (hkind.symm.trans hfatal) (by decide)
    · exact hB
  · intro hB
    cases hx : x with
    | ok a => exact absurd hB (hQ a (h.value hx))
    | error f =>
      rcases h.fault hx with ⟨-, hnot⟩ | ⟨hfatal, -⟩
      · exact absurd hB (hA hnot)
      · exact ⟨f, rfl, hfatal⟩

theorem product_own :
    Yields (Fault.Own site) (site.product sizes) fun n =>
      n = positions sizes ∧ ProductFits sizes :=
  .product fun _ _ => ⟨rfl, .inl rfl⟩

end Yields

end Lamina
