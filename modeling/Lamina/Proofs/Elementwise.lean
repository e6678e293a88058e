import Mathlib
import Lamina.Proofs.Adapting
import Lamina.Proofs.FoldOutcomes
import Lamina.Proofs.Offsets

/-!
# What elementwise operators compute

Constants are combined from the left, each repeated up to the common shape first. At an index of the
result an operand has the value at its own part of the index (`Broadcast.ownIndex`): the axes from
its offset on, at zero where it has one position only.

The arithmetic combines the elements at each index on its own (`BinaryOp.onElements?`). One operand
more is one step at every index (`Kernel.binary_elements`, `combineOperand_elements`), so a run over
operands of one type is the run over their values at every index (`combineOperands_elements`). Words
always have a result. Integers have one if no step leaves the range and no divisor is zero
(`BinaryOp.Fits`), and then it is the exact one (`BinaryOp.foldlM_onInts?`).

**Theorem** (`Operator.fold_elementwise`): the values of a folded elementwise operator, and when it
fails. Operands of two types always fail; if the operands before the first one of another type are
integers that do not fit, that is found first.
-/

namespace Lamina

/-! ### Exact arithmetic -/

namespace BinaryOp

/-- The operation on unbounded integers. Division goes toward zero. -/
def exact : BinaryOp → Int → Int → Int
  | add => (· + ·)
  | sub => (· - ·)
  | mul => (· * ·)
  | div => Int.tdiv

/-- Combined from the left, no step divides by zero or leaves the range of 64 bits. -/
def Fits (op : BinaryOp) : Int → List Int → Prop
  | _, [] => True
  | x, y :: ys => ¬ (op = .div ∧ y = 0) ∧
      (Int64.minValue.toInt ≤ op.exact x y ∧ op.exact x y ≤ Int64.maxValue.toInt) ∧
        op.Fits (op.exact x y) ys

theorem inRange?_eq_some {i : Int} {v : Int64} :
    inRange? i = some v ↔ (Int64.minValue.toInt ≤ i ∧ i ≤ Int64.maxValue.toInt) ∧ v.toInt = i := by
  have hmin := Int64.toInt_minValue
  have hmax := Int64.toInt_maxValue
  unfold inRange?
  split
  · rename_i hrange
    rw [Option.some.injEq, and_iff_right hrange]
    constructor
    · rintro rfl
      exact Int64.toInt_ofInt_of_le (by omega) (by omega)
    · rintro rfl
      exact v.ofInt_toInt
  · rename_i hrange
    refine ⟨fun h => ?_, fun h => absurd h.1 hrange⟩
    cases h

theorem onInts?_eq_some {op : BinaryOp} {x y v : Int64} :
    op.onInts? x y = some v ↔ ¬ (op = .div ∧ y.toInt = 0) ∧
      (Int64.minValue.toInt ≤ op.exact x.toInt y.toInt ∧
        op.exact x.toInt y.toInt ≤ Int64.maxValue.toInt) ∧
      v.toInt = op.exact x.toInt y.toInt := by
  have hzero : y = 0 ↔ y.toInt = 0 := by rw [← Int64.toInt_inj, Int64.toInt_zero]
  cases op with
  | add | sub | mul => simp [onInts?, inRange?_eq_some, exact]
  | div =>
    by_cases hy : y = 0
    · simp [onInts?, hy]
    · simp [onInts?, hy, hzero.not.1 hy, inRange?_eq_some, exact]

theorem exists_onInts? {op : BinaryOp} {x y : Int64} (hdiv : ¬ (op = .div ∧ y.toInt = 0))
    (hrange : Int64.minValue.toInt ≤ op.exact x.toInt y.toInt ∧
      op.exact x.toInt y.toInt ≤ Int64.maxValue.toInt) :
    ∃ w, op.onInts? x y = some w ∧ w.toInt = op.exact x.toInt y.toInt := by
  have hw := (inRange?_eq_some.1 (if_pos hrange)).2
  exact ⟨_, onInts?_eq_some.2 ⟨hdiv, hrange, hw⟩, hw⟩

/-- **Checked arithmetic is exact arithmetic that fits.** -/
theorem foldlM_onInts? {op : BinaryOp} {x v : Int64} {ys : List Int64} :
    ys.foldlM op.onInts? x = some v ↔ op.Fits x.toInt (ys.map Int64.toInt) ∧
      v.toInt = (ys.map Int64.toInt).foldl op.exact x.toInt := by
  induction ys generalizing x with
  | nil =>
    rw [List.foldlM_nil]
    simp [Fits, Int64.toInt_inj, eq_comm]
  | cons y ys ih =>
    rw [List.foldlM_cons, Option.bind_eq_bind, Option.bind_eq_some_iff]
    constructor
    · rintro ⟨w, hw, hrest⟩
      obtain ⟨hdiv, hrange, hexact⟩ := onInts?_eq_some.1 hw
      rw [ih, hexact] at hrest
      exact ⟨⟨hdiv, hrange, hrest.1⟩, hrest.2⟩
    · rintro ⟨⟨hdiv, hrange, hrest⟩, hv⟩
      obtain ⟨w, hw, hexact⟩ := exists_onInts? hdiv hrange
      refine ⟨w, hw, ?_⟩
      rw [ih, hexact]
      exact ⟨hrest, hv⟩

/-- A run has no result if and only if it does not fit. -/
theorem foldlM_onInts?_eq_none {op : BinaryOp} {x : Int64} {ys : List Int64} :
    ys.foldlM op.onInts? x = none ↔ ¬ op.Fits x.toInt (ys.map Int64.toInt) := by
  rw [Option.eq_none_iff_forall_ne_some]
  refine ⟨fun h hfits => ?_, fun h v hv => h (foldlM_onInts?.1 hv).1⟩
  suffices hsome : ∃ v, ys.foldlM op.onInts? x = some v by
    obtain ⟨v, hv⟩ := hsome
    exact h v hv
  clear h
  induction ys generalizing x with
  | nil => exact ⟨x, rfl⟩
  | cons y ys ih =>
    obtain ⟨hdiv, hrange, hrest⟩ := hfits
    obtain ⟨w, hw, hexact⟩ := exists_onInts? hdiv hrange
    rw [← hexact] at hrest
    obtain ⟨v, hv⟩ := ih hrest
    rw [List.foldlM_cons, hw]
    exact ⟨v, hv⟩

/-- The operation on elements of one type. -/
def onElements? (op : BinaryOp) : Element → Element → Option Element
  | .float x, .float y => some (.float (op.onFloats x y))
  | .int x, .int y => (op.onInts? x y).map .int
  | _, _ => none

theorem foldlM_onElements?_floats (op : BinaryOp) (x : Binary32) (ys : List Binary32) :
    (ys.map Element.float).foldlM op.onElements? (.float x) =
      some (.float (ys.foldl op.onFloats x)) := by
  induction ys generalizing x with
  | nil => rfl
  | cons y ys ih => exact ih (op.onFloats x y)

theorem foldlM_onElements?_ints (op : BinaryOp) (x : Int64) (ys : List Int64) :
    (ys.map Element.int).foldlM op.onElements? (.int x) = (ys.foldlM op.onInts? x).map .int := by
  induction ys generalizing x with
  | nil => rfl
  | cons y ys ih =>
    rw [List.map_cons, List.foldlM_cons, List.foldlM_cons, onElements?]
    cases op.onInts? x y with
    | none => rfl
    | some v => exact ih v

theorem foldlM_onElements?_ints_eq_none {op : BinaryOp} {x : Int64} {ys : List Int64} :
    (ys.map Element.int).foldlM op.onElements? (.int x) = none ↔
      ¬ op.Fits x.toInt (ys.map Int64.toInt) := by
  rw [foldlM_onElements?_ints, Option.map_eq_none_iff, foldlM_onInts?_eq_none]

end BinaryOp

/-! ### Elements of buffers -/

/-- The type of an element. -/
def Element.type : Element → ElementType
  | .float _ => .float
  | .int _ => .int64

theorem Element.exists_float {w : Element} (h : w.type = .float) : ∃ x, Element.float x = w := by
  cases w with
  | float x => exact ⟨x, rfl⟩
  | int x => cases h

theorem Element.exists_int {w : Element} (h : w.type = .int64) : ∃ x, Element.int x = w := by
  cases w with
  | float x => cases h
  | int x => exact ⟨x, rfl⟩

namespace Buffer

variable {b : Buffer}

theorem type_of_get? {k : Nat} {v : Element} (h : b.get? k = some v) : v.type = b.elementType := by
  cases b with
  | floats values =>
    obtain ⟨x, -, rfl⟩ := Option.map_eq_some_iff.1 h
    rfl
  | ints values =>
    obtain ⟨x, -, rfl⟩ := Option.map_eq_some_iff.1 h
    rfl

theorem lt_size_of_get? {k : Nat} {v : Element} (h : b.get? k = some v) : k < b.size := by
  by_contra hk
  rw [get?_eq_none (not_lt.1 hk)] at h
  cases h

theorem exists_get? {k : Nat} (h : k < b.size) : ∃ v, b.get? k = some v := by
  cases b with
  | floats values => exact ⟨.float values[k], by rw [get?, Array.getElem?_eq_getElem h]; rfl⟩
  | ints values => exact ⟨.int values[k], by rw [get?, Array.getElem?_eq_getElem h]; rfl⟩

end Buffer

namespace Kernel

variable {α β : Type} {f : α → Option β}

theorem getElem?_mapM_some {l : List α} {out : List β} (h : l.mapM f = some out) (k : Nat) :
    out[k]? = (l[k]?).bind f := by
  induction l generalizing out k with
  | nil =>
    obtain rfl : [] = out := by simpa using h
    rfl
  | cons a l ih =>
    rw [List.mapM_cons] at h
    obtain ⟨b, hb, h⟩ := Option.bind_eq_some_iff.1 h
    obtain ⟨bs, hbs, h⟩ := Option.bind_eq_some_iff.1 h
    obtain rfl := Option.some.inj h
    cases k with
    | zero => exact hb.symm
    | succ k => exact ih hbs k

theorem exists_none_of_mapM {l : List α} (h : l.mapM f = none) :
    ∃ (k : Nat) (a : α), l[k]? = some a ∧ f a = none := by
  induction l with
  | nil => cases h
  | cons a l ih =>
    cases ha : f a with
    | none => exact ⟨0, a, rfl, ha⟩
    | some b =>
      rw [List.mapM_cons, ha] at h
      cases hl : l.mapM f with
      | none =>
        obtain ⟨k, c, hc, hnone⟩ := ih hl
        exact ⟨k + 1, c, hc, hnone⟩
      | some bs =>
        rw [hl] at h
        cases h

/-- **The arithmetic works on each element on its own.** It fails if one of them has no result. -/
theorem binary_elements (op : BinaryOp) {a b : Buffer} (hsize : a.size = b.size)
    (htype : a.elementType = b.elementType) :
    Yields (fun f => f.kind = .unsupported ∧
        ∃ k x y, a.get? k = some x ∧ b.get? k = some y ∧ op.onElements? x y = none)
      (binary op a b) fun out => out.elementType = a.elementType ∧ out.size = a.size ∧
        ∀ k x y, a.get? k = some x → b.get? k = some y → out.get? k = op.onElements? x y := by
  unfold binary
  dsimp only
  rw [if_neg (not_not.2 hsize)]
  cases a with
  | floats x =>
    cases b with
    | ints y => cases htype
    | floats y =>
      have hsize : x.size = y.size := hsize
      refine .ok ⟨rfl, by simp [Buffer.size, hsize], fun k u v hu hv => ?_⟩
      obtain ⟨u, hx, rfl⟩ := Option.map_eq_some_iff.1 hu
      obtain ⟨v, hy, rfl⟩ := Option.map_eq_some_iff.1 hv
      rw [Buffer.get?, Array.getElem?_zipWith, hx, hy]
      rfl
  | ints x =>
    cases b with
    | floats y => cases htype
    | ints y =>
      have hsize : x.size = y.size := hsize
      dsimp only
      rw [Array.mapM_eq_mapM_toList]
      cases hrun : (x.zip y).toList.mapM fun p => op.onInts? p.1 p.2 with
      | some out =>
        refine .ok ⟨rfl, ?_, fun k u v hu hv => ?_⟩
        · have hlength := length_mapM_some hrun
          simpa [Buffer.size, hsize] using hlength
        · obtain ⟨u, hx, rfl⟩ := Option.map_eq_some_iff.1 hu
          obtain ⟨v, hy, rfl⟩ := Option.map_eq_some_iff.1 hv
          have hpair : (x.zip y).toList[k]? = some (u, v) := by
            rw [Array.getElem?_toList]
            exact Array.getElem?_zip_eq_some.2 ⟨hx, hy⟩
          have hout := getElem?_mapM_some hrun k
          rw [hpair] at hout
          rw [Buffer.get?, List.getElem?_toArray, hout]
          rfl
      | none =>
        obtain ⟨k, ⟨u, v⟩, hpair, hnone⟩ := exists_none_of_mapM hrun
        rw [Array.getElem?_toList] at hpair
        obtain ⟨hu, hv⟩ := Array.getElem?_zip_eq_some.1 hpair
        refine .fail ⟨rfl, k, .int u, .int v, ?_, ?_, ?_⟩
        · rw [Buffer.get?, hu]
          rfl
        · rw [Buffer.get?, hv]
          rfl
        · exact congrArg (Option.map Element.int) hnone

end Kernel

/-! ### Values of operands -/

namespace Broadcast

variable {shape out : Shape} {k : Nat} {ix : List Nat} {c c' : Constant} {mode : Alignment}

/-- The part of an index of the result that belongs to an operand: the axes from its offset on, at
zero where it has one position. -/
def ownIndex (shape : Shape) (offset : Nat) (ix : List Nat) : List Nat :=
  clip shape.dims ((ix.drop offset).take shape.rank)

/-- The value of an operand at an index of the result. -/
def valueAt (site : Site) (mode : Alignment) (out : Shape) (ix : List Nat) (c : Constant) :
    Option Element := do
  let k ← (offset site mode c.shape.rank out.rank).toOption
  c.source.get? (place c.shape.dims (ownIndex c.shape k ix))

/-- The values of several operands at an index of the result. -/
def ValuesAt (site : Site) (mode : Alignment) (out : Shape) (ix : List Nat) (cs : List Constant)
    (values : List Element) : Prop :=
  cs.map (valueAt site mode out ix) = values.map some

/-- An index of the result, as one of the padded operand, is the operand's own part with zeros
around it. -/
theorem clip_embedShape (h : Embeds shape k out) (hix : Within out.dims ix) :
    Within shape.dims (ownIndex shape k ix) ∧
      clip (embedShape shape k out.rank).dims ix =
        pad 0 k (ownIndex shape k ix) (out.rank - (k + shape.rank)) := by
  have hclip := hix.clip h.2
  rw [embedShape_dims h.1, ← pad] at hclip ⊢
  obtain ⟨inner, hinner, heq⟩ := hclip.exists_pad
  suffices hown : ownIndex shape k ix = inner by
    rw [hown]
    exact ⟨hinner, heq⟩
  have hrank : shape.dims.length = shape.rank := rfl
  have hlength : inner.length = shape.rank := hinner.length_eq
  calc ownIndex shape k ix
      = ((clip (pad 1 k shape.dims (out.rank - (k + shape.rank))) ix).drop k).take shape.rank := by
        unfold ownIndex clip pad
        rw [List.drop_zipWith, List.take_zipWith, List.append_assoc, List.drop_left' (by simp),
          List.take_left' hrank]
    _ = inner := by
        rw [heq, pad, List.append_assoc, List.drop_left' (by simp), List.take_left' hlength]

/-- **A repeated constant** has at an index the element at its own part of the index. -/
theorem elementAt_own (h : Embeds c.shape k out) (hc : constant c k out = .ok c')
    (hix : Within out.dims ix) :
    Within c.shape.dims (ownIndex c.shape k ix) ∧
      c'.elementAt ix = c.elementAt (ownIndex c.shape k ix) := by
  obtain ⟨-, -, helement⟩ := elementAt_constant h hc
  obtain ⟨hown, hclip⟩ := clip_embedShape h hix
  refine ⟨hown, ?_⟩
  rw [helement ix hix, hclip, embedShape_dims h.1, ← pad, place_pad_axes hown,
    Constant.source_get? hown]

theorem valuesAt_nil {site : Site} {values : List Element} :
    ValuesAt site mode out ix [] values ↔ values = [] := by
  rw [ValuesAt, List.map_nil, eq_comm, List.map_eq_nil_iff]

theorem valuesAt_cons {site : Site} {cs : List Constant} {v : Element} {values : List Element} :
    ValuesAt site mode out ix (c :: cs) (v :: values) ↔
      valueAt site mode out ix c = some v ∧ ValuesAt site mode out ix cs values := by
  simp [ValuesAt]

theorem type_of_valueAt {site : Site} {v : Element} (hv : valueAt site mode out ix c = some v) :
    v.type = c.elementType := by
  obtain ⟨k, -, hv⟩ := Option.bind_eq_some_iff.1 hv
  rw [Buffer.type_of_get? hv, c.elementType_source, Constant.elementType]

/-- The values of operands of one type have that type. -/
theorem ValuesAt.type_of_mem {site : Site} {cs : List Constant} {values : List Element}
    {t : ElementType} (h : ValuesAt site mode out ix cs values)
    (htypes : ∀ c ∈ cs, c.elementType = t) : ∀ v ∈ values, v.type = t := by
  intro v hv
  have hmem : some v ∈ cs.map (valueAt site mode out ix) := by
    rw [h]
    exact List.mem_map_of_mem hv
  obtain ⟨c, hc, hvalue⟩ := List.mem_map.1 hmem
  exact (type_of_valueAt hvalue).trans (htypes c hc)

/-- The values of operands of one type, as numbers of that type. -/
theorem ValuesAt.exists_map {site : Site} {cs : List Constant} {v : Element} {vs : List Element}
    {t : ElementType} {β : Type} {f : β → Element} (hf : ∀ w : Element, w.type = t → ∃ x, f x = w)
    (h : ValuesAt site mode out ix cs (v :: vs)) (htypes : ∀ c ∈ cs, c.elementType = t) :
    ∃ (x : β) (xs : List β), f x = v ∧ xs.map f = vs := by
  have hmem : v :: vs ∈ Set.range (List.map f) := by
    rw [Set.range_list_map]
    exact fun w hw => hf w (h.type_of_mem htypes w hw)
  obtain ⟨xs, hxs⟩ := hmem
  obtain ⟨x, xs, -, hx, hxs⟩ := List.map_eq_cons_iff.1 hxs
  exact ⟨x, xs, hx, hxs⟩

theorem layout_constant (h : Embeds c.shape k out) (hc : constant c k out = .ok c') :
    c'.layout = .uncommitted := by
  unfold constant at hc
  dsimp only at hc
  split at hc
  · rename_i hsame
    unfold Constant.reshaped at hc
    rw [dif_pos (count_embedShape h.1), hsame.2, if_neg Bool.false_ne_true] at hc
    cases hc
    rfl
  · exact (Constant.parts_of_ofParts hc).2.1

end Broadcast

/-- A constant of a shape and a type, in axis order. -/
structure Constant.InOrder (out : Shape) (t : ElementType) (c : Constant) : Prop where
  shape : c.shape = out
  layout : c.layout = .uncommitted
  type : c.elementType = t

variable {h : Header} {mode : Alignment} {out : Shape} {t : ElementType} {ix : List Nat}
  {c acc : Constant} {op : BinaryOp}

theorem Constant.InOrder.elementAt (hc : c.InOrder out t) (hix : Within out.dims ix) :
    c.elementAt ix = c.data.get? (place out.dims ix) := by
  obtain ⟨rfl, hlayout, -⟩ := hc
  rw [Constant.elementAt, Buffer.elementAt, hlayout, Layout.place_of_not_shuffled rfl rfl hix]

theorem Constant.InOrder.exists_element (hc : c.InOrder out t) (hix : Within out.dims ix) :
    ∃ v, c.elementAt ix = some v := by
  rw [hc.elementAt hix]
  refine Buffer.exists_get? ?_
  rw [c.size_eq, hc.shape]
  exact place_lt hix

/-- **An operand repeated up to the result** has its value at every index. -/
theorem expandOperand_elements (h : Header) (hplaced : Broadcast.Placed mode c.shape out) :
    ∃ x, expandOperand h mode out c = .ok x ∧ x.InOrder out c.elementType ∧
      ∀ ix, Within out.dims ix → x.elementAt ix = Broadcast.valueAt h.site mode out ix c := by
  obtain ⟨k, hk, hembeds⟩ := hplaced
  obtain ⟨x, hx, -⟩ := (Broadcast.constant_yields hembeds).exists_ok
  obtain ⟨hshape, htype, -⟩ := Broadcast.elementAt_constant hembeds hx
  refine ⟨x, ?_, ⟨hshape, Broadcast.layout_constant hembeds hx, htype⟩, fun ix hix => ?_⟩
  · rw [expandOperand, hk]
    exact hx
  · obtain ⟨hown, helement⟩ := Broadcast.elementAt_own hembeds hx hix
    rw [helement, ← Constant.source_get? hown, Broadcast.valueAt, hk]
    rfl

/-- Operands that have a place have a value at every index. -/
theorem exists_values (h : Header) {cs : List Constant}
    (hcs : ∀ c ∈ cs, Broadcast.Placed mode c.shape out) (hix : Within out.dims ix) :
    ∃ ys, Broadcast.ValuesAt h.site mode out ix cs ys := by
  induction cs with
  | nil => exact ⟨[], rfl⟩
  | cons c cs ih =>
    obtain ⟨ys, hys⟩ := ih fun c hc => hcs c (List.mem_cons_of_mem _ hc)
    obtain ⟨x, -, hx, helement⟩ := expandOperand_elements h (hcs c List.mem_cons_self)
    obtain ⟨y, hy⟩ := hx.exists_element hix
    exact ⟨y :: ys, Broadcast.valuesAt_cons.2 ⟨(helement ix hix).symm.trans hy, hys⟩⟩

theorem exists_values_cons (h : Header) {cs : List Constant}
    (hcs : ∀ d ∈ c :: cs, Broadcast.Placed mode d.shape out) (hix : Within out.dims ix) :
    ∃ v vs, Broadcast.ValuesAt h.site mode out ix (c :: cs) (v :: vs) := by
  obtain ⟨_ | ⟨v, vs⟩, hvs⟩ := exists_values h hcs hix
  · cases hvs
  · exact ⟨v, vs, hvs⟩

/-! ### Combining operands -/

/-- **One operand more is one step at every index.** -/
theorem combineOperand_elements (op : BinaryOp) (hacc : acc.InOrder out t)
    (hplaced : Broadcast.Placed mode c.shape out) (htype : c.elementType = t) :
    Yields (fun f => f.kind = .unsupported ∧ ∃ ix a y, Within out.dims ix ∧
        acc.elementAt ix = some a ∧ Broadcast.valueAt h.site mode out ix c = some y ∧
          op.onElements? a y = none)
      (combineOperand h op mode out (some acc) c) fun r => ∃ acc', r = some acc' ∧
        acc'.InOrder out t ∧ ∀ ix a y, Within out.dims ix → acc.elementAt ix = some a →
          Broadcast.valueAt h.site mode out ix c = some y →
            acc'.elementAt ix = op.onElements? a y := by
  obtain ⟨x, hx, hxorder, hvalue⟩ := expandOperand_elements h hplaced
  unfold combineOperand
  refine Yields.bind (Q := (x = ·)) (.of_eq_ok hx rfl) ?_
  rintro _ rfl
  dsimp only
  have htypes : acc.elementType = x.elementType := by rw [hacc.type, hxorder.type, htype]
  rw [if_neg (not_not.2 htypes)]
  have hsize : acc.data.size = x.data.size := by
    rw [acc.size_eq, x.size_eq, hacc.shape, hxorder.shape]
  refine ((Kernel.binary_elements op hsize htypes).mono ?_ fun _ hdata => hdata).bind
    fun data hdata => ?_
  · rintro f ⟨hkind, p, a, y, ha, hy, hnone⟩
    -- the position that fails is the place of an index
    have hp : p < positions out.dims := by
      have hlt := Buffer.lt_size_of_get? ha
      rwa [acc.size_eq, hacc.shape] at hlt
    obtain ⟨ix, hix, rfl⟩ := exists_place hp
    refine ⟨hkind, ix, a, y, hix, ?_, ?_, hnone⟩
    · rw [hacc.elementAt hix, ha]
    · rw [← hvalue ix hix, hxorder.elementAt hix, hy]
  · obtain ⟨hdatatype, hdatasize, helements⟩ := hdata
    have hcount : data.size = out.count := by rw [hdatasize, acc.size_eq, hacc.shape]
    refine (Constant.ofParts_yields rfl hcount).bind fun acc' hacc' => ?_
    have horder : acc'.InOrder out t := by
      refine ⟨hacc'.1, hacc'.2.1, ?_⟩
      rw [Constant.elementType, hacc'.2.2, hdatatype]
      exact hacc.type
    refine .pure ⟨acc', rfl, horder, fun ix a y hix ha hy => ?_⟩
    rw [horder.elementAt hix, hacc'.2.2]
    refine helements _ a y ?_ ?_
    · rw [← hacc.elementAt hix, ha]
    · rw [← hxorder.elementAt hix, hvalue ix hix, hy]

/-- **The whole run:** at every index the values of the operands are combined from the left. -/
theorem combineOperands_elements (op : BinaryOp) {cs : List Constant}
    (hcs : ∀ c ∈ cs, Broadcast.Placed mode c.shape out) (htypes : ∀ c ∈ cs, c.elementType = t)
    (hacc : acc.InOrder out t) :
    Yields (fun f => f.kind = .unsupported ∧ ∃ ix a ys, Within out.dims ix ∧
        acc.elementAt ix = some a ∧ Broadcast.ValuesAt h.site mode out ix cs ys ∧
          ys.foldlM op.onElements? a = none)
      (cs.foldlM (combineOperand h op mode out) (some acc)) fun r => ∃ acc', r = some acc' ∧
        acc'.InOrder out t ∧ ∀ ix a ys, Within out.dims ix → acc.elementAt ix = some a →
          Broadcast.ValuesAt h.site mode out ix cs ys →
            acc'.elementAt ix = ys.foldlM op.onElements? a := by
  induction cs generalizing acc with
  | nil =>
    refine .pure ⟨acc, rfl, hacc, fun ix a ys _ ha hys => ?_⟩
    obtain rfl := Broadcast.valuesAt_nil.1 hys
    exact ha
  | cons c cs ih =>
    have hplaced := hcs c List.mem_cons_self
    have hrest := fun c hc => hcs c (List.mem_cons_of_mem _ hc)
    rw [List.foldlM_cons]
    refine ((combineOperand_elements op hacc hplaced (htypes c List.mem_cons_self)).mono ?_
      fun _ hr => hr).bind ?_
    · rintro f ⟨hkind, ix, a, y, hix, ha, hy, hnone⟩
      obtain ⟨ys, hys⟩ := exists_values h hrest hix
      refine ⟨hkind, ix, a, y :: ys, hix, ha, Broadcast.valuesAt_cons.2 ⟨hy, hys⟩, ?_⟩
      rw [List.foldlM_cons, hnone]
      rfl
    rintro _ ⟨acc', rfl, hacc', hstep⟩
    refine (ih hrest (fun c hc => htypes c (List.mem_cons_of_mem _ hc)) hacc').mono ?_ ?_
    · rintro f ⟨hkind, ix, a', ys, hix, ha', hys, hnone⟩
      obtain ⟨a, ha⟩ := hacc.exists_element hix
      obtain ⟨x, -, hx, hvalue⟩ := expandOperand_elements h hplaced
      obtain ⟨y, hy⟩ := hx.exists_element hix
      rw [hvalue ix hix] at hy
      refine ⟨hkind, ix, a, y :: ys, hix, ha, Broadcast.valuesAt_cons.2 ⟨hy, hys⟩, ?_⟩
      rw [List.foldlM_cons, ← hstep ix a y hix ha hy, ha']
      exact hnone
    · rintro _ ⟨acc'', rfl, hacc'', hrun⟩
      refine ⟨acc'', rfl, hacc'', fun ix a ys hix ha hys => ?_⟩
      obtain ⟨a', ha'⟩ := hacc'.exists_element hix
      cases ys with
      | nil => cases hys
      | cons y ys =>
        have hys := Broadcast.valuesAt_cons.1 hys
        rw [hrun ix a' ys hix ha' hys.2, List.foldlM_cons, ← hstep ix a y hix ha hys.1, ha']
        rfl

/-! ### Folding constants -/

/-- Without faults there is a value. -/
theorem Yields.exists_value {α : Type} {P : Fault → Prop} {x : Except Fault α} {Q : α → Prop}
    (hx : Yields P x Q) (hP : ∀ f, ¬ P f) : ∃ a, x = .ok a ∧ Q a :=
  (hx.mono hP fun _ ha => ha).exists_ok

/-- Without values there is a fault. -/
theorem Yields.exists_fault {α : Type} {P : Fault → Prop} {x : Except Fault α} {Q : α → Prop}
    (hx : Yields P x Q) (hQ : ∀ a, ¬ Q a) : ∃ f, x = .error f ∧ P f := by
  cases x with
  | ok a => exact absurd hx (hQ a)
  | error f => exact ⟨f, rfl, hx⟩

/-- The bound values of constants are the constants, one after another. -/
theorem foldlM_constants {β : Type} (h : Header) (f : β → Constant → Except Fault β)
    (cs : List Constant) (b : β) :
    (List.range (Operands.ofConstants cs).length).foldlM (fun acc i => do
      f acc (← (Operands.ofConstants cs).constant h i)) b = cs.foldlM f b := by
  -- induction on what is left, whatever has been passed
  suffices hrun : ∀ rest passed b, cs = passed ++ rest →
      (List.range' passed.length rest.length).foldlM (fun acc i => do
        f acc (← (Operands.ofConstants cs).constant h i)) b = rest.foldlM f b by
    have hlength : (Operands.ofConstants cs).length = cs.length := List.length_map _
    rw [hlength, List.range_eq_range']
    exact hrun cs [] b rfl
  intro rest
  induction rest with
  | nil => exact fun _ _ _ => rfl
  | cons c rest ih =>
    intro passed b hcs
    have hconstant : (Operands.ofConstants cs).constant h passed.length = .ok c :=
      Operands.constant_ofConstants h (by simp [hcs])
    have hlength : passed.length + 1 = (passed ++ [c]).length := by simp
    rw [List.length_cons, List.range'_succ, List.foldlM_cons, List.foldlM_cons, hconstant, hlength]
    refine bind_congr fun b' => ?_
    exact ih (passed ++ [c]) b' (by rw [hcs, List.append_assoc]; rfl)

/-- The first operand begins the run. -/
theorem combineAll_elements (h : Header) (op : BinaryOp) {cs : List Constant}
    (hcs : ∀ d ∈ c :: cs, Broadcast.Placed mode d.shape out)
    (htypes : ∀ d ∈ c :: cs, d.elementType = t) :
    Yields (fun f => f.kind = .unsupported ∧ ∃ ix v vs, Within out.dims ix ∧
        Broadcast.ValuesAt h.site mode out ix (c :: cs) (v :: vs) ∧
          vs.foldlM op.onElements? v = none)
      ((c :: cs).foldlM (combineOperand h op mode out) none) fun r => ∃ acc, r = some acc ∧
        acc.InOrder out t ∧ ∀ ix v vs, Within out.dims ix →
          Broadcast.ValuesAt h.site mode out ix (c :: cs) (v :: vs) →
            acc.elementAt ix = vs.foldlM op.onElements? v := by
  obtain ⟨x, hx, hxorder, hvalue⟩ := expandOperand_elements h (hcs c List.mem_cons_self)
  rw [htypes c List.mem_cons_self] at hxorder
  have hfirst : combineOperand h op mode out none c = .ok (some x) := by
    rw [combineOperand, hx]
    rfl
  rw [List.foldlM_cons, hfirst]
  refine (combineOperands_elements op (fun d hd => hcs d (List.mem_cons_of_mem _ hd))
    (fun d hd => htypes d (List.mem_cons_of_mem _ hd)) hxorder).mono ?_ ?_
  · rintro f ⟨hkind, ix, v, vs, hix, hv, hvs, hnone⟩
    rw [hvalue ix hix] at hv
    exact ⟨hkind, ix, v, vs, hix, Broadcast.valuesAt_cons.2 ⟨hv, hvs⟩, hnone⟩
  · rintro _ ⟨acc, rfl, hacc, hrun⟩
    refine ⟨acc, rfl, hacc, fun ix v vs hix hvalues => ?_⟩
    obtain ⟨hv, hvs⟩ := Broadcast.valuesAt_cons.1 hvalues
    exact hrun ix v vs hix ((hvalue ix hix).trans hv) hvs

/-- Folding constants is the run over them. -/
theorem foldEltwise_of_run {P : Fault → Prop} {Q : Constant → Prop} {e : Pointwise}
    {cs : List Constant} (hout : commonShape h mode (Operands.ofConstants cs).shapes = .ok out)
    (hrun : Yields P (cs.foldlM (combineOperand h e.binary mode out) none)
      fun r => ∃ c, r = some c ∧ Q c) :
    Yields P (foldEltwise h e mode (.ofConstants cs)) Q := by
  unfold foldEltwise
  refine Yields.bind (Q := (out = ·)) (.of_eq_ok hout rfl) ?_
  rintro _ rfl
  rw [foldlM_constants]
  refine hrun.bind ?_
  rintro _ ⟨c, rfl, hc⟩
  exact .pure hc

/-- Constants of a common shape have a place in it. -/
theorem placed_of_commonShape {cs : List Constant}
    (hout : commonShape h mode (Operands.ofConstants cs).shapes = .ok out) :
    ∀ c ∈ cs, Broadcast.Placed mode c.shape out := by
  intro c hc
  refine commonShape_places hout _ (List.mem_map.2 ⟨⟨c.shape, some c⟩, ?_, rfl⟩)
  exact List.mem_filterMap.2 ⟨_, List.mem_map.2 ⟨c, hc, rfl⟩, rfl⟩

/-- **Operands of one type** are folded to the values combined from the left, unless an index has no
result. -/
theorem foldEltwise_elements {e : Pointwise} {cs : List Constant}
    (hout : commonShape h mode (Operands.ofConstants (c :: cs)).shapes = .ok out)
    (htypes : ∀ d ∈ c :: cs, d.elementType = t) :
    Yields (fun f => f.kind = .unsupported ∧ ∃ ix v vs, Within out.dims ix ∧
        Broadcast.ValuesAt h.site mode out ix (c :: cs) (v :: vs) ∧
          vs.foldlM e.binary.onElements? v = none)
      (foldEltwise h e mode (.ofConstants (c :: cs))) fun r => r.shape = out ∧ r.elementType = t ∧
        ∀ ix v vs, Within out.dims ix →
          Broadcast.ValuesAt h.site mode out ix (c :: cs) (v :: vs) →
            r.source.get? (place out.dims ix) = vs.foldlM e.binary.onElements? v := by
  refine foldEltwise_of_run hout
    ((combineAll_elements h e.binary (placed_of_commonShape hout) htypes).imp ?_)
  rintro _ ⟨acc, rfl, hacc, hvalues⟩
  refine ⟨acc, rfl, hacc.shape, hacc.type, fun ix v vs hix hvs => ?_⟩
  rw [← hvalues ix v vs hix hvs, ← hacc.shape]
  exact Constant.source_get? (hacc.shape ▸ hix)

/-- **Operands of two types** are not folded. Those in front of the first one of another type are
combined first, and may fail before the types are compared. -/
theorem foldEltwise_mixed {e : Pointwise} {cs rest : List Constant} {d : Constant}
    (hout : commonShape h mode (Operands.ofConstants (c :: cs ++ d :: rest)).shapes = .ok out)
    (htypes : ∀ d ∈ c :: cs, d.elementType = t) (hd : d.elementType ≠ t) :
    Yields (fun f => (f.kind = .unsupported ∧ ∃ ix v vs, Within out.dims ix ∧
        Broadcast.ValuesAt h.site mode out ix (c :: cs) (v :: vs) ∧
          vs.foldlM e.binary.onElements? v = none) ∨
        (f.kind = .malformed ∧ ∀ ix v vs, Within out.dims ix →
          Broadcast.ValuesAt h.site mode out ix (c :: cs) (v :: vs) →
            ∃ r, vs.foldlM e.binary.onElements? v = some r))
      (foldEltwise h e mode (.ofConstants (c :: cs ++ d :: rest))) fun _ => False := by
  have hplaced := placed_of_commonShape hout
  refine foldEltwise_of_run hout ?_
  rw [List.foldlM_append]
  refine ((combineAll_elements h e.binary (fun d hd => hplaced d (List.mem_append_left _ hd))
    htypes).mono (fun _ hf => .inl hf) fun _ hr => hr).bind ?_
  rintro _ ⟨acc, rfl, hacc, hvalues⟩
  obtain ⟨x, hx, hxorder, -⟩ := expandOperand_elements h (hplaced d (by simp))
  have hdiffer : acc.elementType ≠ x.elementType := by
    rw [hacc.type, hxorder.type]
    exact hd.symm
  have hfails : combineOperand h e.binary mode out (some acc) d =
      h.fail (.elementwise (.inputTypes acc.elementType x.elementType)) := by
    rw [combineOperand, hx]
    exact if_pos hdiffer
  rw [List.foldlM_cons, hfails]
  refine .inr ⟨rfl, fun ix v vs hix hvs => ?_⟩
  obtain ⟨r, hr⟩ := hacc.exists_element hix
  exact ⟨r, (hvalues ix v vs hix hvs).symm.trans hr⟩

/-! ### Elementwise operators -/

namespace Operator

variable {op : Operator} {e : Pointwise} {cs : List Constant}

theorem commonShape_of_outputShapes (haction : op.action = .eltwise e mode) {ops : Operands}
    (hout : op.outputShapes ops = .ok [out]) :
    commonShape op.header mode ops.shapes = .ok out := by
  have hs := outputShapes_eq_ok.1 hout
  rwa [Operator.outputShape, haction] at hs

theorem foldOutputs_yields (haction : op.action = .eltwise e mode) {P : Fault → Prop}
    {Q : Constant → Prop} {ops : Operands} (h : Yields P (foldEltwise op.header e mode ops) Q) :
    Yields P (op.foldOutputs ops) fun r => ∃ c, r = [c] ∧ Q c := by
  apply foldOutputs_of_fold
  rwa [Operator.fold, Operator.foldBy, haction]

/-- Only integers can be without a result, and then they do not fit. -/
theorem not_fits_of_none {c : Constant} {t : ElementType} {site : Site} {v : Element}
    {vs : List Element} {op : BinaryOp} (htypes : ∀ d ∈ c :: cs, d.elementType = t)
    (hvs : Broadcast.ValuesAt site mode out ix (c :: cs) (v :: vs))
    (hnone : vs.foldlM op.onElements? v = none) :
    t = .int64 ∧ ∃ x xs, v :: vs = (x :: xs).map .int ∧
      ¬ op.Fits x.toInt (xs.map Int64.toInt) := by
  cases t with
  | float =>
    obtain ⟨x, xs, rfl, rfl⟩ := hvs.exists_map (fun _ => Element.exists_float) htypes
    rw [BinaryOp.foldlM_onElements?_floats] at hnone
    cases hnone
  | int64 =>
    obtain ⟨x, xs, rfl, rfl⟩ := hvs.exists_map (fun _ => Element.exists_int) htypes
    exact ⟨rfl, x, xs, rfl, BinaryOp.foldlM_onElements?_ints_eq_none.1 hnone⟩

/-- Integers that were folded fit, and are exact. -/
theorem exact_of_folded {r : Constant} {x : Int64} {xs : List Int64} {op : BinaryOp}
    (hshape : r.shape = out) (hix : Within out.dims ix)
    (hvalue : r.source.get? (place out.dims ix) =
      (xs.map Element.int).foldlM op.onElements? (.int x)) :
    op.Fits x.toInt (xs.map Int64.toInt) ∧
      ∃ v, r.source.get? (place out.dims ix) = some (.int v) ∧
        v.toInt = (xs.map Int64.toInt).foldl op.exact x.toInt := by
  have hlt : place out.dims ix < r.source.size := by
    rw [r.size_source, hshape]
    exact place_lt hix
  obtain ⟨w, hw⟩ := Buffer.exists_get? hlt
  rw [BinaryOp.foldlM_onElements?_ints, hw] at hvalue
  obtain ⟨v, hv, rfl⟩ := Option.map_eq_some_iff.1 hvalue.symm
  obtain ⟨hfits, hexact⟩ := BinaryOp.foldlM_onInts?.1 hv
  exact ⟨hfits, v, hw, hexact⟩

/-- **The values of a folded elementwise operator.** Words are combined from the left at every
index. So are integers, if that fits at every index. Operands of two types fail: with integers that
do not fit in front of the first operand of another type, for that reason, and otherwise as
malformed. -/
theorem fold_elementwise {mode : Alignment} {out : Shape} (haction : op.action = .eltwise e mode)
    (hout : op.outputShapes (.ofConstants cs) = .ok [out]) :
    ((∀ c ∈ cs, c.elementType = .float) →
      ∃ r, op.foldOutputs (.ofConstants cs) = .ok [r] ∧ r.shape = out ∧
        ∀ ix, Within out.dims ix → ∃ x xs,
          Broadcast.ValuesAt op.header.site mode out ix cs ((x :: xs).map .float) ∧
          r.source.get? (place out.dims ix) = some (.float (xs.foldl e.binary.onFloats x))) ∧
    ((∀ c ∈ cs, c.elementType = .int64) →
      (∀ ix, Within out.dims ix → ∃ x xs,
        Broadcast.ValuesAt op.header.site mode out ix cs ((x :: xs).map .int)) ∧
      ((∃ r, op.foldOutputs (.ofConstants cs) = .ok r) ↔ ∀ ix x xs, Within out.dims ix →
        Broadcast.ValuesAt op.header.site mode out ix cs ((x :: xs).map .int) →
          e.binary.Fits x.toInt (xs.map Int64.toInt)) ∧
      (∀ r, op.foldOutputs (.ofConstants cs) = .ok r → ∃ c, r = [c] ∧ c.shape = out ∧
        ∀ ix x xs, Within out.dims ix →
          Broadcast.ValuesAt op.header.site mode out ix cs ((x :: xs).map .int) →
            ∃ v, c.source.get? (place out.dims ix) = some (.int v) ∧
              v.toInt = (xs.map Int64.toInt).foldl e.binary.exact x.toInt) ∧
      ∀ f, op.foldOutputs (.ofConstants cs) = .error f → f.kind = .unsupported) ∧
    (∀ c front d rest t, cs = c :: front ++ d :: rest → (∀ b ∈ c :: front, b.elementType = t) →
      d.elementType ≠ t → ∃ f, op.foldOutputs (.ofConstants cs) = .error f ∧
        (f.kind = .unsupported ∨ f.kind = .malformed) ∧
        (f.kind = .unsupported ↔ t = .int64 ∧ ∃ ix x xs, Within out.dims ix ∧
          Broadcast.ValuesAt op.header.site mode out ix (c :: front) ((x :: xs).map .int) ∧
            ¬ e.binary.Fits x.toInt (xs.map Int64.toInt))) := by
  have hcommon := commonShape_of_outputShapes haction hout
  have hne : cs ≠ [] := by
    rintro rfl
    cases hcommon
  obtain ⟨c, cs, rfl⟩ := List.exists_cons_of_ne_nil hne
  have hplaced := placed_of_commonShape hcommon
  refine ⟨fun htypes => ?_, fun htypes => ⟨?_, ?_, ?_, ?_⟩, ?_⟩
  · have hfold := foldOutputs_yields haction (foldEltwise_elements hcommon htypes)
    obtain ⟨_, hr, r, rfl, hshape, -, hvalues⟩ := hfold.exists_value <| by
      rintro f ⟨-, ix, v, vs, -, hvs, hnone⟩
      cases (not_fits_of_none htypes hvs hnone).1
    refine ⟨r, hr, hshape, fun ix hix => ?_⟩
    obtain ⟨v, vs, hvs⟩ := exists_values_cons op.header hplaced hix
    obtain ⟨x, xs, rfl, rfl⟩ := hvs.exists_map (fun _ => Element.exists_float) htypes
    refine ⟨x, xs, hvs, ?_⟩
    rw [hvalues ix _ _ hix hvs, BinaryOp.foldlM_onElements?_floats]
  · intro ix hix
    obtain ⟨v, vs, hvs⟩ := exists_values_cons op.header hplaced hix
    obtain ⟨x, xs, rfl, rfl⟩ := hvs.exists_map (fun _ => Element.exists_int) htypes
    exact ⟨x, xs, hvs⟩
  · have hfold := foldOutputs_yields haction (foldEltwise_elements hcommon htypes)
    constructor
    · rintro ⟨_, hr⟩ ix x xs hix hvs
      obtain ⟨r, rfl, hshape, -, hvalues⟩ := hfold.value hr
      exact (exact_of_folded hshape hix (hvalues ix _ _ hix hvs)).1
    · intro hfits
      obtain ⟨r, hr, -⟩ := hfold.exists_value <| by
        rintro f ⟨-, ix, v, vs, hix, hvs, hnone⟩
        obtain ⟨-, x, xs, heq, hunfit⟩ := not_fits_of_none htypes hvs hnone
        exact hunfit (hfits ix x xs hix (heq ▸ hvs))
      exact ⟨r, hr⟩
  · intro r hr
    have hfold := foldOutputs_yields haction (foldEltwise_elements hcommon htypes)
    obtain ⟨c', rfl, hshape, -, hvalues⟩ := hfold.value hr
    refine ⟨c', rfl, hshape, fun ix x xs hix hvs => ?_⟩
    exact (exact_of_folded hshape hix (hvalues ix _ _ hix hvs)).2
  · intro f hf
    exact ((foldOutputs_yields haction (foldEltwise_elements hcommon htypes)).fault hf).1
  · intro c' front d rest t hcs htypes hd
    rw [hcs] at hcommon ⊢
    obtain ⟨f, hf, hcause⟩ :=
      (foldOutputs_yields haction (foldEltwise_mixed hcommon htypes hd)).exists_fault (by simp)
    refine ⟨f, hf, hcause.imp And.left And.left, ?_⟩
    rcases hcause with ⟨hkind, ix, v, vs, hix, hvs, hnone⟩ | ⟨hkind, hall⟩
    · refine ⟨fun _ => ?_, fun _ => hkind⟩
      obtain ⟨hint, x, xs, heq, hunfit⟩ := not_fits_of_none htypes hvs hnone
      exact ⟨hint, ix, x, xs, hix, heq ▸ hvs, hunfit⟩
    · rw [hkind]
      refine ⟨fun hkinds => absurd hkinds (by decide), ?_⟩
      rintro ⟨rfl, ix, x, xs, hix, hvs, hfits⟩
      obtain ⟨r, hr⟩ := hall ix _ _ hix hvs
      rw [BinaryOp.foldlM_onElements?_ints_eq_none.2 hfits] at hr
      cases hr

/-- Four dividends, transposed in memory: 9 and 6 are the first row. -/
def dividends : Constant :=
  ⟨⟨[2, 2]⟩, ⟨[.depth, .width], by decide⟩, .ints #[9, -9, 6, 5], rfl, rfl⟩

/-- Two divisors, one of them zero. -/
def divisors : Constant := ⟨⟨[1, 2]⟩, .uncommitted, .ints #[4, 0], rfl, rfl⟩

/-- A row of divisors, one of them zero, is repeated for both rows of dividends. -/
theorem fold_elementwise_by_zero :
    outputShapes ⟨⟨"Div", "ratio", 7⟩, .eltwise .div .trailing⟩
      (.ofConstants [dividends, divisors]) = .ok [⟨[2, 2]⟩] ∧
    (∀ c ∈ [dividends, divisors], c.elementType = .int64) ∧
    ∃ f, foldOutputs ⟨⟨"Div", "ratio", 7⟩, .eltwise .div .trailing⟩
      (.ofConstants [dividends, divisors]) = .error f ∧ f.kind = .unsupported := by
  have hout : outputShapes ⟨⟨"Div", "ratio", 7⟩, .eltwise .div .trailing⟩
      (.ofConstants [dividends, divisors]) = .ok [⟨[2, 2]⟩] := by rfl
  have htypes : ∀ c ∈ [dividends, divisors], c.elementType = .int64 := by decide
  obtain ⟨-, hints, -⟩ := fold_elementwise rfl hout
  obtain ⟨-, hiff, -, hkind⟩ := hints htypes
  refine ⟨hout, htypes, ?_⟩
  have hvalues : Broadcast.ValuesAt ⟨"Div", "ratio"⟩ .trailing ⟨[2, 2]⟩ [0, 1]
      [dividends, divisors] ([6, 0].map .int) := by cbv
  have hfails : ¬ ∃ r, foldOutputs ⟨⟨"Div", "ratio", 7⟩, .eltwise .div .trailing⟩
      (.ofConstants [dividends, divisors]) = .ok r := by
    rw [hiff]
    intro hfits
    have hzero := hfits [0, 1] 6 [0] (.cons (by decide) (.cons (by decide) .nil)) hvalues
    exact hzero.1 ⟨rfl, rfl⟩
  rcases hfold : foldOutputs ⟨⟨"Div", "ratio", 7⟩, .eltwise .div .trailing⟩
      (.ofConstants [dividends, divisors]) with f | r
  · exact ⟨f, rfl, hkind f hfold⟩
  · exact absurd ⟨r, hfold⟩ hfails

/-- The greatest integer. -/
def greatest : Constant := ⟨⟨[1]⟩, .uncommitted, .ints #[9223372036854775807], rfl, rfl⟩

/-- An integer that the greatest one has no room for. -/
def increment : Constant := ⟨⟨[1]⟩, .uncommitted, .ints #[1], rfl, rfl⟩

/-- A word behind the two integers. -/
def wordBehind : Constant := ⟨⟨[1]⟩, .uncommitted, .floats #[.zero], rfl, rfl⟩

/-- A sum of two types that fails as unsupported: the overflow comes before the other type. -/
theorem sum_overflows_before_word :
    ∃ op, Registry.builtins.create ⟨"Sum", "s", ["a", "b", "c"], ["y"], []⟩ 12 = .ok op ∧
      op.action = .eltwise .sum .trailing ∧
      increment.elementType ≠ wordBehind.elementType ∧
      op.outputShapes (.ofConstants [greatest, increment, wordBehind]) = .ok [⟨[1]⟩] ∧
      ∃ f, op.foldOutputs (.ofConstants [greatest, increment, wordBehind]) = .error f ∧
        f.kind ≠ .malformed := by
  refine ⟨⟨⟨"Sum", "s", 12⟩, .eltwise .sum .trailing⟩, rfl, rfl, by decide, rfl, ?_⟩
  refine ⟨⟨⟨"CpuBackend", "+"⟩, .kernel .integerRange⟩, by cbv, by decide⟩

end Operator

end Lamina
