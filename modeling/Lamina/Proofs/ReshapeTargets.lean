import Mathlib
import Lamina.Proofs.Inference

/-!
# What a request for a reshaping means

A request lists one entry per axis of the result. A positive entry is the extent, a zero copies the
extent of the input at the same position, and minus one leaves the extent open. What fixes an open
extent is that the result has as many elements as the input. With the product `known` of the other
extents and the number `total` of elements it is a solution `v` of `known * v = total`.

A product that is not zero has at most one solution, and there is one if it divides the total. If it
is zero, then nothing or everything is a solution. Hence a solution that is the only one is found by
a division that is exact, and by a divisor that is not zero (`solves_uniquely_iff`).

The products are taken in words. The two from which the open extent is found have to fit; that of
the result does then, since its extents are those of the request but for one that divides the total
(`productFits_fill`).

**Theorem** (`reshapeTarget_unique`): a request whose products fit is granted if and only if it can
be read and there is exactly one shape that answers it, which is then the result. All others are
malformed, and nothing is ever divided by zero. Where a product does not fit, a request that can be
read is given up, even if it has exactly one answer (`reshapeTarget_beyond_words`).
-/

namespace Lamina

variable {h : Header} {input s : Shape} {requested : List Int64} {position : Nat} {inferred : Bool}

/-! ### Requests that can be read -/

namespace Shape

/-- A request can be read: it has one open extent at most and no entry below minus one, and copies
only extents that the input has. -/
structure Admits (input : Shape) (requested : List Int64) : Prop where
  open_extents : requested.count (-1) ≤ 1
  entries : ∀ d ∈ requested, -1 ≤ d.toInt
  copies : ∀ i : Nat, requested[i]? = some 0 → i < input.rank

/-- A shape answers a request: it has the requested extents where they are positive, those of the
input where they are to be copied, any at all where it is open, and as many elements as the
input. -/
structure Answers (s input : Shape) (requested : List Int64) : Prop where
  rank : s.rank = requested.length
  fixed : ∀ (i : Nat) (d : Int64), requested[i]? = some d → 0 < d.toInt →
    s.dims[i]? = some d.toInt.toNat
  copied : ∀ i : Nat, requested[i]? = some 0 → s.dims[i]? = input.dims[i]?
  count : s.count = input.count

/-- The end of a request can be read, of which the first entry is at a position and before which an
extent may have been left open. -/
structure AdmitsFrom (input : Shape) (position : Nat) (inferred : Bool)
    (requested : List Int64) : Prop where
  open_extents : requested.count (-1) + inferred.toNat ≤ 1
  entries : ∀ d ∈ requested, -1 ≤ d.toInt
  copies : ∀ i : Nat, requested[i]? = some 0 → position + i < input.rank

theorem admitsFrom_zero : input.AdmitsFrom 0 false requested ↔ input.Admits requested := by
  constructor
  · rintro ⟨hopen, hentries, hcopies⟩
    exact ⟨hopen, hentries, fun i hi => by simpa using hcopies i hi⟩
  · rintro ⟨hopen, hentries, hcopies⟩
    exact ⟨hopen, hentries, fun i hi => by simpa using hcopies i hi⟩

end Shape

/-- An entry can be read at a position before which an extent may have been left open. -/
def Readable (input : Shape) (position : Nat) (inferred : Bool) (d : Int64) : Prop :=
  d = 0 ∧ position < input.rank ∨ d = -1 ∧ inferred = false ∨ 0 < d.toInt

/-- The extent that an entry at a position stands for, if it is not open. -/
def meant (input : Shape) (position : Nat) (d : Int64) : Option Nat :=
  if d = 0 then some (input.extent position) else if d = -1 then none else some d.toInt.toNat

/-- The extents that a request stands for. -/
def meantFrom (input : Shape) (position : Nat) (requested : List Int64) : List (Option Nat) :=
  (requested.zipIdx position).map fun e => meant input e.2 e.1

theorem meant_zero : meant input position 0 = some (input.extent position) := if_pos rfl

theorem meant_of_pos {d : Int64} (hpos : 0 < d.toInt) :
    meant input position d = some d.toInt.toNat := by
  rw [meant, if_neg, if_neg]
  · rintro rfl
    exact absurd hpos (by decide)
  · rintro rfl
    exact absurd hpos (by decide)

theorem meant_eq_none {d : Int64} : meant input position d = none ↔ d = -1 := by
  unfold meant
  split
  · rename_i hzero
    subst hzero
    simp
  · simp

theorem entry_cases {d : Int64} : -1 ≤ d.toInt ↔ d = 0 ∨ d = -1 ∨ 0 < d.toInt := by
  rw [← Int64.toInt_inj, ← Int64.toInt_inj, Int64.toInt_zero, show (-1 : Int64).toInt = -1 from rfl]
  omega

/-- An open extent counts for what comes after it. -/
theorem count_open {d : Int64} (hfirst : d = -1 → inferred = false) :
    (d :: requested).count (-1) + inferred.toNat =
      requested.count (-1) + (inferred || (meant input position d).isNone).toNat := by
  by_cases hminus : d = -1
  · rw [hfirst hminus, meant_eq_none.2 hminus, hminus, List.count_cons_self]
    rfl
  · have hsome : (meant input position d).isNone = false :=
      Option.isNone_eq_false_iff.2 (Option.isSome_iff_ne_none.2 (mt meant_eq_none.1 hminus))
    rw [List.count_cons_of_ne hminus, hsome, Bool.or_false]

/-- One entry after the other. -/
theorem Shape.admitsFrom_cons {d : Int64} :
    input.AdmitsFrom position inferred (d :: requested) ↔ Readable input position inferred d ∧
      input.AdmitsFrom (position + 1) (inferred || (meant input position d).isNone) requested := by
  constructor
  · rintro ⟨hopen, hentries, hcopies⟩
    have hfirst : d = -1 → inferred = false := by
      rintro rfl
      rw [List.count_cons_self] at hopen
      exact Bool.toNat_eq_zero.1 (by omega)
    refine ⟨?_, ?_, fun e he => hentries e (List.mem_cons_of_mem d he), fun i hi => ?_⟩
    · rcases entry_cases.1 (hentries d List.mem_cons_self) with rfl | hminus | hpos
      · exact .inl ⟨rfl, hcopies 0 rfl⟩
      · exact .inr (.inl ⟨hminus, hfirst hminus⟩)
      · exact .inr (.inr hpos)
    · rwa [← count_open hfirst]
    · have := hcopies (i + 1) hi
      omega
  · rintro ⟨hread, hopen, hentries, hcopies⟩
    refine ⟨?_, ?_, ?_⟩
    · rwa [count_open]
      rintro rfl
      rcases hread with ⟨hzero, -⟩ | ⟨-, hfalse⟩ | hpos
      · exact absurd hzero (by decide)
      · exact hfalse
      · exact absurd hpos (by decide)
    · intro e he
      rcases List.mem_cons.1 he with rfl | he
      · exact entry_cases.2 (hread.imp And.left (.imp And.left id))
      · exact hentries e he
    · intro i hi
      cases i with
      | zero =>
        obtain rfl := Option.some.inj hi
        rcases hread with ⟨-, hlt⟩ | ⟨hminus, -⟩ | hpos
        · exact hlt
        · exact absurd hminus (by decide)
        · exact absurd hpos (by decide)
      | succ i =>
        have := hcopies i hi
        omega

/-- The first entry is read, and then the rest. -/
theorem requestedExtents_cons {d : Int64} {extents : List (Option Nat)} :
    requestedExtents h input position inferred (d :: requested) = .ok extents ↔
      Readable input position inferred d ∧ ∃ tail,
        requestedExtents h input (position + 1) (inferred || (meant input position d).isNone)
          requested = .ok tail ∧ meant input position d :: tail = extents := by
  have hfails : ∀ (cause : Cause) (f : Option Nat → Except Fault (List (Option Nat))),
      h.fail cause >>= f ≠ .ok extents := by
    intro cause f hok
    obtain ⟨_, hfail, -⟩ := bind_eq_ok.1 hok
    exact Site.fail_ne_ok hfail
  rw [requestedExtents]
  dsimp only
  unfold Readable meant
  by_cases hzero : d = 0
  · subst hzero
    have hminus : (0 : Int64) ≠ -1 := by decide
    cases hextent : input.dims[position]? with
    | none =>
      have hlt : ¬ position < input.rank := not_lt.2 (List.getElem?_eq_none_iff.1 hextent)
      simp [hlt, hminus, hfails]
    | some k =>
      have hlt : position < input.rank := (List.getElem?_eq_some_iff.1 hextent).1
      simp [hlt, Shape.extent, hextent, map_eq_ok]
  · by_cases hminus : d = -1
    · subst hminus
      cases inferred with
      | true => simp [hzero, hfails]
      | false => simp [hzero, map_eq_ok]
    · by_cases hpos : 0 < d
      · have hpos' : 0 < d.toInt := Int64.lt_iff_toInt_lt.1 hpos
        simp [hzero, hminus, hpos, hpos', map_eq_ok]
      · have hpos' : ¬ 0 < d.toInt := fun h => hpos (Int64.lt_iff_toInt_lt.2 h)
        simp [hzero, hminus, hpos, hpos', hfails]

/-- **A request is read entry by entry**, if it can be read. -/
theorem requestedExtents_eq_ok {extents : List (Option Nat)} :
    requestedExtents h input position inferred requested = .ok extents ↔
      input.AdmitsFrom position inferred requested ∧
        meantFrom input position requested = extents := by
  induction requested generalizing position inferred extents with
  | nil =>
    have hnil : input.AdmitsFrom position inferred [] :=
      ⟨by cases inferred <;> decide, by simp, by simp⟩
    constructor
    · intro hread
      cases hread
      exact ⟨hnil, rfl⟩
    · rintro ⟨-, rfl⟩
      rfl
  | cons d rest ih =>
    rw [requestedExtents_cons, Shape.admitsFrom_cons, and_assoc]
    simp only [ih]
    constructor
    · rintro ⟨hread, _, ⟨hadmits, rfl⟩, rfl⟩
      exact ⟨hread, hadmits, rfl⟩
    · rintro ⟨hread, hadmits, rfl⟩
      exact ⟨hread, _, ⟨hadmits, rfl⟩, rfl⟩

/-! ### Open extents -/

/-- The extents with a value for the open one. -/
def fill (extents : List (Option Nat)) (v : Nat) : List Nat := extents.map fun e => e.getD v

theorem fill_eq_of_notMem {extents : List (Option Nat)} (hopen : none ∉ extents) (v v' : Nat) :
    fill extents v = fill extents v' := by
  apply List.map_congr_left
  intro e he
  cases e with
  | none => exact absurd he hopen
  | some d => rfl

theorem fill_injective {extents : List (Option Nat)} (hopen : none ∈ extents) {v v' : Nat}
    (heq : fill extents v = fill extents v') : v = v' :=
  List.map_inj_left.1 heq none hopen

theorem positions_fill {extents : List (Option Nat)} (hopen : extents.count none = 1) (v : Nat) :
    positions (fill extents v) = positions (fill extents 1) * v := by
  induction extents with
  | nil => simp at hopen
  | cons e extents ih =>
    cases e with
    | none =>
      have hrest : none ∉ extents := by
        rw [List.count_cons_self] at hopen
        exact List.count_eq_zero.1 (by omega)
      show v * positions (fill extents v) = 1 * positions (fill extents 1) * v
      rw [fill_eq_of_notMem hrest v 1]
      ring
    | some d =>
      have hrest : extents.count none = 1 := by simpa using hopen
      show d * positions (fill extents v) = d * positions (fill extents 1) * v
      rw [ih hrest]
      ring

/-- **The product of the result is taken in words** if that of the other extents is and if the open
extent makes it no more than a word. Up to the open extent they are the same, and from there on
nothing exceeds the whole product, as no extent is zero. -/
theorem productFits_fill {extents : List (Option Nat)} {v : Nat} (hopen : extents.count none ≤ 1)
    (hfits : ProductFits (fill extents 1)) (hknown : positions (fill extents 1) ≠ 0)
    (hv : positions (fill extents 1) * v < wordLimit) : ProductFits (fill extents v) := by
  intro i hi
  have htake : ∀ v', (fill extents v').take i = fill (extents.take i) v' := fun v' =>
    List.map_take.symm
  rw [htake]
  by_cases hmem : none ∈ extents.take i
  · have hone : (extents.take i).count none = 1 := by
      have hpos := List.count_pos_iff.2 hmem
      have hle := (List.take_sublist i extents).count_le none
      omega
    have hsplit : positions (fill extents 1) =
        positions (fill (extents.take i) 1) * positions (fill (extents.drop i) 1) := by
      rw [← positions_append, fill, fill, fill, ← List.map_append, List.take_append_drop]
    have hrest : 1 ≤ positions (fill (extents.drop i) 1) := by
      apply Nat.one_le_iff_ne_zero.2
      intro hzero
      exact hknown (by rw [hsplit, hzero, Nat.mul_zero])
    calc positions (fill (extents.take i) v)
        = positions (fill (extents.take i) 1) * v := positions_fill hone v
      _ ≤ positions (fill extents 1) * v := by
          rw [hsplit]
          exact Nat.mul_le_mul_right v (Nat.le_mul_of_pos_right _ hrest)
      _ < wordLimit := hv
  · rw [fill_eq_of_notMem hmem v 1, ← htake]
    exact hfits i (by simpa [fill] using hi)

/-- Extents that agree with a list of which one is open fill it up. -/
theorem exists_fill {extents : List (Option Nat)} {dims : List Nat}
    (hagree : List.Forall₂ (fun e n => ∀ k, e = some k → n = k) extents dims)
    (hopen : extents.count none ≤ 1) : ∃ v, dims = fill extents v := by
  induction hagree with
  | nil => exact ⟨0, rfl⟩
  | @cons e n extents dims he hrest ih =>
    cases e with
    | none =>
      rw [List.count_cons_self] at hopen
      obtain ⟨v, rfl⟩ := ih (by omega)
      have hnot : none ∉ extents := List.count_eq_zero.1 (by omega)
      exact ⟨n, by rw [fill_eq_of_notMem hnot v n]; rfl⟩
    | some k =>
      obtain ⟨v, rfl⟩ := ih (by simpa using hopen)
      exact ⟨v, by rw [he k rfl]; rfl⟩

/-- **A solution that is the only one** is found by an exact division, and not by one by zero. -/
theorem solves_uniquely_iff {known total v : Nat} :
    (known * v = total ∧ ∀ v', known * v' = total → v' = v) ↔
      known ≠ 0 ∧ total % known = 0 ∧ v = total / known := by
  constructor
  · rintro ⟨rfl, honly⟩
    have hknown : known ≠ 0 := by
      rintro rfl
      have := honly (v + 1) (by simp)
      omega
    exact ⟨hknown, Nat.mul_mod_right known v,
      (Nat.mul_div_cancel_left v (Nat.pos_of_ne_zero hknown)).symm⟩
  · rintro ⟨hknown, hmod, rfl⟩
    have hexact : known * (total / known) = total :=
      Nat.mul_div_cancel' (Nat.dvd_of_mod_eq_zero hmod)
    refine ⟨hexact, fun v' hv' => ?_⟩
    exact Nat.eq_of_mul_eq_mul_left (Nat.pos_of_ne_zero hknown) (hv'.trans hexact.symm)

/-! ### The result -/

@[simp] theorem length_meantFrom : (meantFrom input position requested).length =
    requested.length := by
  simp [meantFrom]

theorem getElem?_meantFrom (i : Nat) :
    (meantFrom input 0 requested)[i]? = (requested[i]?).map (meant input i) := by
  simp [meantFrom, List.getElem?_zipIdx, Function.comp_def]

/-- The number of open extents is the number of entries that are minus one. -/
theorem count_meantFrom (position : Nat) :
    (meantFrom input position requested).count none = requested.count (-1) := by
  induction requested generalizing position with
  | nil => rfl
  | cons d rest ih =>
    rw [meantFrom, List.zipIdx_cons, List.map_cons, ← meantFrom, List.count_cons, List.count_cons,
      ih]
    simp only [beq_iff_eq, meant_eq_none]

/-- A request that can be read is answered by the extents that it stands for. -/
theorem Shape.Answers.agree (hadmits : input.Admits requested) (hs : s.Answers input requested) :
    List.Forall₂ (fun e n => ∀ k, e = some k → n = k) (meantFrom input 0 requested) s.dims := by
  rw [List.forall₂_iff_get]
  refine ⟨length_meantFrom.trans hs.rank.symm, fun i hi hi' k hk => ?_⟩
  rw [length_meantFrom] at hi
  have hd : requested[i]? = some requested[i] := List.getElem?_eq_getElem hi
  have hmeant : meant input i requested[i] = some k := by
    have hget : (meantFrom input 0 requested)[i]? = _ := getElem?_meantFrom i
    rw [hd, Option.map_some, List.getElem?_eq_getElem (by rwa [length_meantFrom])] at hget
    exact (Option.some.inj hget).symm.trans hk
  apply Option.some.inj
  rw [List.get_eq_getElem, ← List.getElem?_eq_getElem hi', ← hmeant]
  rcases entry_cases.1 (hadmits.entries _ (List.getElem_mem hi)) with hzero | hminus | hpos
  · rw [hzero] at hd
    have hlt : i < input.dims.length := hadmits.copies i hd
    rw [hs.copied i hd, hzero, meant_zero, Shape.extent, List.getElem?_eq_getElem hlt,
      List.getD_eq_getElem _ _ hlt]
  · rw [meant_eq_none.2 hminus] at hmeant
    cases hmeant
  · rw [hs.fixed i _ hd hpos, meant_of_pos hpos]

/-- **The shapes that answer a request** have its extents with some value for the open one, and as
many elements as the input. -/
theorem Shape.answers_iff (hadmits : input.Admits requested) :
    s.Answers input requested ↔
      (∃ v, s.dims = fill (meantFrom input 0 requested) v) ∧ s.count = input.count := by
  constructor
  · intro hs
    refine ⟨exists_fill (hs.agree hadmits) ?_, hs.count⟩
    rw [count_meantFrom]
    exact hadmits.open_extents
  · rintro ⟨⟨v, hv⟩, hcount⟩
    have hentry : ∀ i, s.dims[i]? = (requested[i]?).map fun d => (meant input i d).getD v := by
      intro i
      rw [hv, fill, List.getElem?_map, getElem?_meantFrom, Option.map_map]
      rfl
    refine ⟨?_, fun i d hd hpos => ?_, fun i hi => ?_, hcount⟩
    · rw [Shape.rank, hv, fill, List.length_map, length_meantFrom]
    · rw [hentry, hd, Option.map_some, meant_of_pos hpos, Option.getD_some]
    · have hlt : i < input.dims.length := hadmits.copies i hi
      rw [hentry, hi, Option.map_some, meant_zero, Option.getD_some, Shape.extent,
        List.getElem?_eq_getElem hlt, List.getD_eq_getElem _ _ hlt]

/-- What a request comes to once its entries are read, whatever the two divisions are: the missing
extent has to exist, and the positions have to be as many as before. -/
def settleBy (quotient remainder : Nat → Nat → Nat) (h : Header) (input : Shape)
    (requested : List Int64) (extents : List (Option Nat)) : Except Fault Shape := do
  let known ← h.site.product (fill extents 1)
  let total ← h.site.product input.dims
  if extents.contains none && (known == 0 || remainder total known != 0) then
    h.fail (.rearrange (.cannotInfer input requested))
  let shape : Shape := ⟨fill extents (quotient total known)⟩
  let count ← h.site.product shape.dims
  if count = total then return shape
  else h.fail (.rearrange (.cannotReshape input shape))

/-- The shape that a request means, whatever the two divisions are. -/
def reshapeTargetBy (quotient remainder : Nat → Nat → Nat) (h : Header) (input : Shape)
    (requested : List Int64) : Except Fault Shape := do
  settleBy quotient remainder h input requested (← requestedExtents h input 0 false requested)

theorem reshapeTarget_eq_by :
    reshapeTarget h input requested =
      reshapeTargetBy (fun n d => n / d) (fun n d => n % d) h input requested := rfl

/-- A shape is what the extents of a request come to: the division for the open one is exact, and
not by zero, and the positions are as many as before. -/
structure Shape.Settles (s input : Shape) (extents : List (Option Nat)) : Prop where
  infers : none ∈ extents → positions (fill extents 1) ≠ 0 ∧
    input.count % positions (fill extents 1) = 0
  dims : s.dims = fill extents (input.count / positions (fill extents 1))
  count : s.count = input.count

/-- The two products from which an open extent is found are taken in words: that of the extents of
the input, and that of the extents that are not open. -/
structure Shape.CountsFit (input : Shape) (requested : List Int64) : Prop where
  total : ProductFits input.dims
  known : ProductFits (fill (meantFrom input 0 requested) 1)

/-- The extents that are settled can be multiplied if those of the input and the known ones can. -/
theorem productFits_settled {extents : List (Option Nat)} (hopen : extents.count none ≤ 1)
    (htotal : ProductFits input.dims) (hknown : ProductFits (fill extents 1))
    (hinfers : none ∈ extents → positions (fill extents 1) ≠ 0 ∧
      positions input.dims % positions (fill extents 1) = 0) :
    ProductFits (fill extents (positions input.dims / positions (fill extents 1))) := by
  by_cases hmem : none ∈ extents
  · obtain ⟨hne, hdivides⟩ := hinfers hmem
    refine productFits_fill hopen hknown hne ?_
    rw [Nat.mul_div_cancel' (Nat.dvd_of_mod_eq_zero hdivides)]
    exact htotal.positions_lt
  · rwa [fill_eq_of_notMem hmem _ 1]

/-- **What a request comes to**, and what is wrong otherwise. If the products fit, it is granted
what it settles, or is malformed. -/
theorem settleBy_yields (hadmits : input.Admits requested) :
    Yields (fun f => f.kind = .malformed ∧ input.CountsFit requested ∧
        (∀ s : Shape, ¬ s.Settles input (meantFrom input 0 requested)) ∨
      f.kind = .fatal ∧ ¬ input.CountsFit requested)
      (settleBy (fun n d => n / d) (fun n d => n % d) h input requested
        (meantFrom input 0 requested)) fun s => input.CountsFit requested ∧
          s.Settles input (meantFrom input 0 requested) := by
  have hopen : (meantFrom input 0 requested).count none ≤ 1 :=
    (count_meantFrom 0).trans_le hadmits.open_extents
  generalize hextents : meantFrom input 0 requested = extents at hopen ⊢
  unfold settleBy
  refine Yields.bind (Yields.product fun _ hnot => ?_) ?_
  · exact .inr ⟨rfl, fun hcounts => hnot (hextents ▸ hcounts.known)⟩
  rintro _ ⟨rfl, hknown⟩
  refine (Yields.product fun _ hnot => .inr ⟨rfl, fun hcounts => hnot hcounts.total⟩).bind ?_
  rintro _ ⟨rfl, htotal⟩
  have hcounts : input.CountsFit requested := ⟨htotal, hextents ▸ hknown⟩
  split
  · rename_i hcannot
    simp only [Bool.and_eq_true, List.contains_iff_mem, Bool.or_eq_true, beq_iff_eq,
      bne_iff_ne] at hcannot
    refine Yields.bind (Q := fun _ => False) (.fail (.inl ⟨rfl, hcounts, ?_⟩)) fun _ hfalse =>
      hfalse.elim
    rintro s ⟨hinfers, -, -⟩
    obtain ⟨hne, hdivides⟩ := hinfers hcannot.1
    exact hcannot.2.elim hne fun hnot => hnot hdivides
  · rename_i hcan
    simp only [Bool.and_eq_true, List.contains_iff_mem, Bool.or_eq_true, beq_iff_eq,
      bne_iff_ne, not_and, not_or, ne_eq, not_not] at hcan
    -- the third product is never too large
    have hresult := productFits_settled hopen htotal hknown hcan
    refine (Yields.product fun _ hnot => absurd hresult hnot).bind ?_
    rintro _ ⟨rfl, -⟩
    dsimp only
    split
    · rename_i hcount
      exact .pure ⟨hcounts, hcan, rfl, hcount⟩
    · rename_i hcount
      refine .fail (.inl ⟨rfl, hcounts, ?_⟩)
      rintro s ⟨-, hdims, hcount'⟩
      rw [Shape.count, hdims] at hcount'
      exact hcount hcount'

theorem Yields.malformed_bind {Q : β → Prop} {site : Site} {cause : Cause}
    {f : α → Except Fault β} (hkind : cause.kind = .malformed) :
    Yields (·.kind = .malformed) (site.fail cause >>= f) Q :=
  Yields.bind (Q := fun _ => False) (.fail hkind) fun _ hfalse => hfalse.elim

theorem requestedExtents_malformed (position : Nat) (inferred : Bool) :
    Yields (·.kind = .malformed) (requestedExtents h input position inferred requested)
      fun _ => True := by
  induction requested generalizing position inferred with
  | nil => exact .ok trivial
  | cons d rest ih =>
    have hrest : ∀ extent : Option Nat, Yields (·.kind = .malformed) (do
        let extents ← requestedExtents h input (position + 1) (inferred || extent.isNone) rest
        return extent :: extents) fun _ => True :=
      fun extent => (ih _ _).bind fun _ _ => .pure trivial
    rw [requestedExtents]
    split_ifs
    · split
      · exact hrest _
      · exact .malformed_bind rfl
    · exact .malformed_bind rfl
    · exact hrest _
    · exact hrest _
    · exact .malformed_bind rfl

/-- What has to hold for a request to be granted, and why it is not. -/
theorem reshapeTarget_explained (h : Header) (input : Shape) (requested : List Int64) :
    Yields (fun f => f.kind = .malformed ∧ (input.Admits requested → input.CountsFit requested ∧
        ∀ s : Shape, ¬ s.Settles input (meantFrom input 0 requested)) ∨
      f.kind = .fatal ∧ input.Admits requested ∧ ¬ input.CountsFit requested)
      (reshapeTarget h input requested) fun s => input.Admits requested ∧
        input.CountsFit requested ∧ s.Settles input (meantFrom input 0 requested) := by
  rw [reshapeTarget_eq_by, reshapeTargetBy]
  refine (Yields.of_faults fun f hf => ?_).bind fun extents hread => ?_
  · refine .inl ⟨(requestedExtents_malformed 0 false).fault hf, fun hadmits => ?_⟩
    rw [requestedExtents_eq_ok.2 ⟨Shape.admitsFrom_zero.2 hadmits, rfl⟩] at hf
    cases hf
  · obtain ⟨hadmits, rfl⟩ := requestedExtents_eq_ok.1 hread
    rw [Shape.admitsFrom_zero] at hadmits
    refine (settleBy_yields hadmits).mono ?_ fun s hs => ⟨hadmits, hs⟩
    rintro f (⟨hkind, hnone⟩ | ⟨hkind, hcounts⟩)
    · exact .inl ⟨hkind, fun _ => hnone⟩
    · exact .inr ⟨hkind, hadmits, hcounts⟩

section Divisions

variable {quotient quotient' remainder remainder' : Nat → Nat → Nat}

theorem settleBy_congr
    (hdivides : ∀ n d, d ≠ 0 → quotient n d = quotient' n d ∧ remainder n d = remainder' n d)
    (extents : List (Option Nat)) :
    settleBy quotient remainder h input requested extents =
      settleBy quotient' remainder' h input requested extents := by
  unfold settleBy
  refine bind_congr fun known => bind_congr fun total => ?_
  dsimp only
  by_cases hopen : none ∈ extents
  · by_cases hknown : known = 0
    · -- the request is refused before anything is divided
      have hcannot : ∀ b, (extents.contains none && (known == 0 || b)) = true := by
        simp [hopen, hknown]
      rw [if_pos (hcannot _), if_pos (hcannot _)]
      rfl
    · obtain ⟨hquotient, hremainder⟩ := hdivides total known hknown
      rw [hquotient, hremainder]
  · have hcan : ∀ b, ¬ (extents.contains none && b) = true := by simp [hopen]
    rw [if_neg (hcan _), if_neg (hcan _),
      fill_eq_of_notMem hopen (quotient _ _) (quotient' _ _)]

/-- **Nothing is divided by zero**: what a division by zero gives makes no difference. -/
theorem reshapeTargetBy_congr
    (hdivides : ∀ n d, d ≠ 0 → quotient n d = quotient' n d ∧ remainder n d = remainder' n d) :
    reshapeTargetBy quotient remainder h input requested =
      reshapeTargetBy quotient' remainder' h input requested := by
  unfold reshapeTargetBy
  congr 1
  funext extents
  exact settleBy_congr hdivides extents

end Divisions

/-- When an extent is left open, the answers are the ways to fill it in so that the positions are
as many as before. -/
theorem Shape.answers_iff_of_open (hadmits : input.Admits requested)
    (hopen : none ∈ meantFrom input 0 requested) :
    s.Answers input requested ↔ ∃ v, s.dims = fill (meantFrom input 0 requested) v ∧
      positions (fill (meantFrom input 0 requested) 1) * v = input.count := by
  have hone : (meantFrom input 0 requested).count none = 1 := by
    have hpos := List.count_pos_iff.2 hopen
    rw [count_meantFrom] at hpos ⊢
    have hle := hadmits.open_extents
    omega
  rw [Shape.answers_iff hadmits]
  constructor
  · rintro ⟨⟨v, hv⟩, hcount⟩
    exact ⟨v, hv, by rw [← positions_fill hone, ← hv, ← hcount]; rfl⟩
  · rintro ⟨v, hv, hcount⟩
    exact ⟨⟨v, hv⟩, by rw [← hcount, ← positions_fill hone, ← hv]; rfl⟩

/-- The result is the only answer: with an extent left open, because the extent is the only
solution; otherwise because the request says every extent. -/
theorem Shape.answers_uniquely_iff (hadmits : input.Admits requested) :
    (s.Answers input requested ∧ ∀ s' : Shape, s'.Answers input requested → s' = s) ↔
      s.Settles input (meantFrom input 0 requested) := by
  by_cases hopen : none ∈ meantFrom input 0 requested
  · have hanswers : ∀ s' : Shape, s'.Answers input requested ↔ _ :=
      fun s' => Shape.answers_iff_of_open hadmits hopen
    constructor
    · rintro ⟨hs, honly⟩
      obtain ⟨v, hv, hsolves⟩ := (hanswers s).1 hs
      have hunique : ∀ v', positions (fill (meantFrom input 0 requested) 1) * v' = input.count →
          v' = v := by
        intro v' hsolves'
        have heq := honly ⟨fill (meantFrom input 0 requested) v'⟩
          ((hanswers _).2 ⟨v', rfl, hsolves'⟩)
        rw [← heq] at hv
        exact fill_injective hopen hv
      obtain ⟨hknown, hdivides, rfl⟩ := solves_uniquely_iff.1 ⟨hsolves, hunique⟩
      exact ⟨fun _ => ⟨hknown, hdivides⟩, hv, hs.count⟩
    · rintro ⟨hinfer, hv, -⟩
      obtain ⟨hknown, hdivides⟩ := hinfer hopen
      obtain ⟨hsolves, honly⟩ := solves_uniquely_iff.2 ⟨hknown, hdivides, rfl⟩
      refine ⟨(hanswers s).2 ⟨_, hv, hsolves⟩, fun s' hs' => ?_⟩
      obtain ⟨v', hv', hsolves'⟩ := (hanswers s').1 hs'
      rw [honly v' hsolves', ← hv] at hv'
      exact congrArg Shape.mk hv'
  · rw [Shape.answers_iff hadmits]
    constructor
    · rintro ⟨⟨⟨v, hv⟩, hcount⟩, -⟩
      exact ⟨fun hmem => absurd hmem hopen, hv.trans (fill_eq_of_notMem hopen _ _), hcount⟩
    · rintro ⟨-, hv, hcount⟩
      refine ⟨⟨⟨_, hv⟩, hcount⟩, fun s' hs' => ?_⟩
      obtain ⟨⟨v', hv'⟩, -⟩ := (Shape.answers_iff hadmits).1 hs'
      have hdims : s'.dims = s.dims := by rw [hv', hv, fill_eq_of_notMem hopen]
      exact congrArg Shape.mk hdims

/-- **A request whose products fit is granted if and only if it can be read and has exactly one
answer**, and the result is that answer. Every other such request is malformed, and a request fails
fatally if and only if it can be read and its products do not fit. Nothing is divided by zero: two
ways to divide that agree on divisors other than zero give the same. -/
theorem reshapeTarget_unique (h : Header) (input : Shape) (requested : List Int64) :
    (∀ s, reshapeTarget h input requested = .ok s ↔ input.Admits requested ∧
      input.CountsFit requested ∧
      s.Answers input requested ∧ ∀ s' : Shape, s'.Answers input requested → s' = s) ∧
    (∀ f, reshapeTarget h input requested = .error f → f.kind = .malformed ∨ f.kind = .fatal) ∧
    ((∃ f, reshapeTarget h input requested = .error f ∧ f.kind = .fatal) ↔
      input.Admits requested ∧ ¬ input.CountsFit requested) ∧
    ∀ quotient remainder : Nat → Nat → Nat,
      (∀ n d, d ≠ 0 → quotient n d = n / d ∧ remainder n d = n % d) →
        reshapeTargetBy quotient remainder h input requested = reshapeTarget h input requested := by
  have hyields := reshapeTarget_explained h input requested
  refine ⟨fun s => ?_, fun f hf => ?_, hyields.fatal_iff ?_ ?_,
    fun quotient remainder hdivides => ?_⟩
  · constructor
    · intro hs
      obtain ⟨hadmits, hcounts, hsettles⟩ := hyields.value hs
      exact ⟨hadmits, hcounts, (Shape.answers_uniquely_iff hadmits).2 hsettles⟩
    · rintro ⟨hadmits, hcounts, hunique⟩
      have hsettles := (Shape.answers_uniquely_iff hadmits).1 hunique
      cases hresult : reshapeTarget h input requested with
      | ok s' =>
        obtain ⟨-, -, hsettles'⟩ := hyields.value hresult
        rw [hunique.2 s' ((Shape.answers_uniquely_iff hadmits).2 hsettles').1]
      | error f =>
        rcases hyields.fault hresult with ⟨-, hnone⟩ | ⟨-, -, hnot⟩
        · exact absurd hsettles ((hnone hadmits).2 s)
        · exact absurd hcounts hnot
  · exact (hyields.fault hf).imp And.left And.left
  · rintro hnone ⟨hadmits, hnot⟩
    exact hnot (hnone hadmits).1
  · rintro s ⟨-, hcounts, -⟩ ⟨-, hnot⟩
    exact hnot hcounts
  · rw [reshapeTarget_eq_by]
    exact reshapeTargetBy_congr hdivides

-- An input without elements leaves an extent to infer only if the others are positive.
example (h : Header) : reshapeTarget h ⟨[0, 3]⟩ [3, -1] = .ok ⟨[3, 0]⟩ := rfl

example (h : Header) : reshapeTarget h ⟨[0, 3]⟩ [0, -1] =
    h.fail (.rearrange (.cannotInfer ⟨[0, 3]⟩ [0, -1])) := rfl

/-- **Products without words.** A request that has no answer is not malformed, and one that has
exactly one answer is not granted: both are given up when their extents are multiplied. -/
theorem reshapeTarget_beyond_words :
    (∃ f, reshapeTarget ⟨"Reshape", "r", 11⟩ ⟨[1]⟩ [7905747460161236407, 7] = .error f ∧
        f.kind = .fatal ∧
        ∀ s : Shape, ¬ s.Answers ⟨[1]⟩ [7905747460161236407, 7]) ∧
      ∃ f, reshapeTarget ⟨"Reshape", "r", 11⟩ ⟨[0]⟩ [4294967296, 4294967296, -1] = .error f ∧
        f.kind = .fatal ∧
        Shape.Answers ⟨[4294967296, 4294967296, 0]⟩ ⟨[0]⟩ [4294967296, 4294967296, -1] ∧
        ∀ s : Shape, s.Answers ⟨[0]⟩ [4294967296, 4294967296, -1] →
          s = ⟨[4294967296, 4294967296, 0]⟩ := by
  have hadmits : ∀ {input : Shape} {requested : List Int64}, requested.count (-1) ≤ 1 →
      (∀ d ∈ requested, -1 ≤ d.toInt) → 0 ∉ requested → input.Admits requested :=
    fun hopen hentries hzero =>
      ⟨hopen, hentries, fun _ hi => absurd (List.mem_of_getElem? hi) hzero⟩
  refine ⟨⟨_, rfl, rfl, fun s hs => ?_⟩, _, rfl, rfl, ?_⟩
  · obtain ⟨⟨v, hv⟩, hcount⟩ :=
      (Shape.answers_iff (hadmits (by decide +kernel) (by simp) (by decide +kernel))).1 hs
    rw [Shape.count, hv, fill_eq_of_notMem (by decide +kernel) v 0] at hcount
    exact absurd hcount (by decide +kernel)
  · exact (Shape.answers_uniquely_iff
      (hadmits (by decide +kernel) (by simp) (by decide +kernel))).2
      ⟨fun _ => by decide +kernel, by decide +kernel, by decide +kernel⟩

end Lamina
