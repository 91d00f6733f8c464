import Mathlib

/-! # Planes of samples

The encoder's images are row-major planes: the quant field and the tile distance maps are
`ImageF`, a plane of floats, and the AC strategy image is a plane of strategies. A plane is its
size and its samples, `row y x` standing for `Row(y)[x]`. Samples outside the size are not part
of the image: no operation here reads them, and none writes them.

The nested `for y < ysize: for x < xsize` loops of the sources are `Plane.forEachCell`, a fold
over the cells in row-major order (`Plane.forEachCell_eq_foldl_cells`); a loop whose body reads
and writes only the cell it visits is `Plane.updateCells`.
-/

namespace JxlEncoder

/-- `DivCeil(a, b)`: `a / b` rounded up. -/
def divCeil (a b : ℕ) : ℕ := (a + b - 1) / b

/-- A plane of `xsize × ysize` samples; `row y x` is the sample `Row(y)[x]`. -/
@[ext]
structure Plane (T : Type) where
  xsize : ℕ
  ysize : ℕ
  row : ℕ → ℕ → T

namespace Plane

variable {T σ : Type}

/-- The plane of the given size with every sample `v` (`FillImage`). -/
def filled (xsize ysize : ℕ) (v : T) : Plane T := ⟨xsize, ysize, fun _ _ => v⟩

@[simp] theorem filled_xsize (xsize ysize : ℕ) (v : T) : (filled xsize ysize v).xsize = xsize := rfl

@[simp] theorem filled_ysize (xsize ysize : ℕ) (v : T) : (filled xsize ysize v).ysize = ysize := rfl

@[simp] theorem filled_row (xsize ysize : ℕ) (v : T) (x y : ℕ) : (filled xsize ysize v).row y x = v :=
  rfl

/-- The plane with the sample at `(x, y)` replaced by `v`: `Row(y)[x] = v`. -/
def set (p : Plane T) (x y : ℕ) (v : T) : Plane T where
  xsize := p.xsize
  ysize := p.ysize
  row y' x' := if x' = x ∧ y' = y then v else p.row y' x'

@[simp] theorem set_xsize (p : Plane T) (x y : ℕ) (v : T) : (p.set x y v).xsize = p.xsize := rfl

@[simp] theorem set_ysize (p : Plane T) (x y : ℕ) (v : T) : (p.set x y v).ysize = p.ysize := rfl

theorem set_row (p : Plane T) (x y : ℕ) (v : T) (x' y' : ℕ) :
    (p.set x y v).row y' x' = if x' = x ∧ y' = y then v else p.row y' x' := rfl

/-- Writing a cell's own sample back changes nothing. -/
@[simp] theorem set_row_self (p : Plane T) (x y : ℕ) : p.set x y (p.row y x) = p := by
  ext
  · rfl
  · rfl
  · simp only [set]
    split_ifs with here
    · rw [here.1, here.2]
    · rfl

/-- The cells of the rectangle `[x0, x1) × [y0, y1)` as `(x, y)` pairs, in row-major order. -/
def cellsIn (x0 x1 y0 y1 : ℕ) : List (ℕ × ℕ) :=
  (List.range' y0 (y1 - y0)).flatMap fun y => (List.range' x0 (x1 - x0)).map fun x => (x, y)

@[simp] theorem mem_cellsIn {x0 x1 y0 y1 : ℕ} {c : ℕ × ℕ} :
    c ∈ cellsIn x0 x1 y0 y1 ↔ x0 ≤ c.1 ∧ c.1 < x1 ∧ y0 ≤ c.2 ∧ c.2 < y1 := by
  obtain ⟨x, y⟩ := c
  simp only [cellsIn, List.mem_flatMap, List.mem_range'_1, List.mem_map, Prod.mk.injEq]
  constructor
  · rintro ⟨y', ⟨afterY, beforeY⟩, x', ⟨afterX, beforeX⟩, rfl, rfl⟩
    omega
  · rintro ⟨afterX, beforeX, afterY, beforeY⟩
    exact ⟨y, ⟨afterY, by omega⟩, x, ⟨afterX, by omega⟩, rfl, rfl⟩

theorem nodup_cellsIn (x0 x1 y0 y1 : ℕ) : (cellsIn x0 x1 y0 y1).Nodup := by
  refine List.nodup_flatMap.mpr ⟨fun y _ => (List.nodup_range' _ _).map ?_, ?_⟩
  · intro x x' same
    exact (Prod.mk.inj same).1
  · refine (List.nodup_range' _ _).pairwise_of_forall_ne fun y _ y' _ distinct => ?_
    simp only [Function.onFun, List.disjoint_left, List.mem_map]
    rintro c ⟨x, -, rfl⟩ ⟨x', -, same⟩
    exact distinct (Prod.mk.inj same).2.symm

theorem length_cellsIn (x0 x1 y0 y1 : ℕ) :
    (cellsIn x0 x1 y0 y1).length = (x1 - x0) * (y1 - y0) := by
  simp [cellsIn, List.length_flatMap, Function.comp_def, List.map_const', List.sum_replicate,
    Nat.mul_comm]

/-- The cells of an `xsize × ysize` grid, in row-major order. -/
def cells (xsize ysize : ℕ) : List (ℕ × ℕ) := cellsIn 0 xsize 0 ysize

@[simp] theorem mem_cells {xsize ysize : ℕ} {c : ℕ × ℕ} :
    c ∈ cells xsize ysize ↔ c.1 < xsize ∧ c.2 < ysize := by
  simp [cells]

theorem nodup_cells (xsize ysize : ℕ) : (cells xsize ysize).Nodup := nodup_cellsIn _ _ _ _

/-- **The rectangle loop** `for (y = y0; y < y1; ++y) for (x = x0; x < x1; ++x) body`, threading
the loop's state. -/
def forEachCellIn (x0 x1 y0 y1 : ℕ) (body : σ → ℕ → ℕ → σ) (init : σ) : σ :=
  (List.range' y0 (y1 - y0)).foldl
    (fun s y => (List.range' x0 (x1 - x0)).foldl (fun s x => body s x y) s) init

/-- **The row-major loop** over an `xsize × ysize` grid. -/
def forEachCell (xsize ysize : ℕ) (body : σ → ℕ → ℕ → σ) (init : σ) : σ :=
  forEachCellIn 0 xsize 0 ysize body init

/-- Nested loops over two lists visit the pairs one after the other. -/
theorem foldl_foldl_eq_foldl_flatMap (ys xs : List ℕ) (body : σ → ℕ → ℕ → σ) (init : σ) :
    ys.foldl (fun s y => xs.foldl (fun s x => body s x y) s) init =
      (ys.flatMap fun y => xs.map fun x => (x, y)).foldl (fun s c => body s c.1 c.2) init := by
  induction ys generalizing init with
  | nil => rfl
  | cons y ys ih => simp only [List.foldl_cons, List.flatMap_cons, List.foldl_append,
      List.foldl_map, ih]

/-- The rectangle loop visits the cells of `cellsIn` one after the other. -/
theorem forEachCellIn_eq_foldl_cellsIn (x0 x1 y0 y1 : ℕ) (body : σ → ℕ → ℕ → σ) (init : σ) :
    forEachCellIn x0 x1 y0 y1 body init =
      (cellsIn x0 x1 y0 y1).foldl (fun s c => body s c.1 c.2) init :=
  foldl_foldl_eq_foldl_flatMap _ _ body init

/-- The row-major loop visits the cells of `cells` one after the other. -/
theorem forEachCell_eq_foldl_cells (xsize ysize : ℕ) (body : σ → ℕ → ℕ → σ) (init : σ) :
    forEachCell xsize ysize body init =
      (cells xsize ysize).foldl (fun s c => body s c.1 c.2) init :=
  forEachCellIn_eq_foldl_cellsIn _ _ _ _ body init

/-- A property that every step of a loop over a list of cells keeps holds after the loop. -/
theorem foldl_cells_induction {l : List (ℕ × ℕ)} {body : σ → ℕ → ℕ → σ} (P : σ → Prop)
    (step : ∀ s c, c ∈ l → P s → P (body s c.1 c.2)) :
    ∀ s, P s → P (l.foldl (fun s c => body s c.1 c.2) s) := by
  induction l with
  | nil => exact fun s holds => holds
  | cons c l ih =>
    intro s holds
    exact ih (fun s c' member => step s c' (.tail _ member)) _ (step s c (.head _) holds)

/-- A property that every step of the rectangle loop keeps holds after the loop. -/
theorem forEachCellIn_induction {x0 x1 y0 y1 : ℕ} {body : σ → ℕ → ℕ → σ} {init : σ}
    (P : σ → Prop) (step : ∀ s x y, P s → P (body s x y)) (start : P init) :
    P (forEachCellIn x0 x1 y0 y1 body init) := by
  rw [forEachCellIn_eq_foldl_cellsIn]
  exact foldl_cells_induction P (fun s c _ => step s c.1 c.2) init start

/-- A quantity that each step of the rectangle loop raises by a term of the visited cell ends as
its start plus the sum of those terms over the rectangle. -/
theorem forEachCellIn_eq_sum {M : Type} [AddCommMonoid M] (g : σ → M) (f : ℕ → ℕ → M)
    {body : σ → ℕ → ℕ → σ} (step : ∀ s x y, g (body s x y) = g s + f x y) (x0 x1 y0 y1 : ℕ)
    (init : σ) : g (forEachCellIn x0 x1 y0 y1 body init) =
      g init + ((cellsIn x0 x1 y0 y1).map fun c => f c.1 c.2).sum := by
  rw [forEachCellIn_eq_foldl_cellsIn]
  induction cellsIn x0 x1 y0 y1 generalizing init with
  | nil => simp
  | cons c l ih => rw [List.foldl_cons, ih, step, List.map_cons, List.sum_cons, add_assoc]

/-- A property that every step of the row-major loop keeps holds after the loop. -/
theorem forEachCell_induction {xsize ysize : ℕ} {body : σ → ℕ → ℕ → σ} {init : σ} (P : σ → Prop)
    (step : ∀ s x y, x < xsize → y < ysize → P s → P (body s x y)) (start : P init) :
    P (forEachCell xsize ysize body init) := by
  rw [forEachCell_eq_foldl_cells]
  exact foldl_cells_induction P (fun s c member => step s c.1 c.2 (mem_cells.mp member).1
    (mem_cells.mp member).2) init start

/-- A loop over distinct cells whose body rewrites only the cell it visits, from that cell's own
sample, applies the rewrite once to each visited cell. -/
theorem foldl_set_row (g : ℕ → ℕ → T → T) :
    ∀ (l : List (ℕ × ℕ)) (p : Plane T), l.Nodup → ∀ x y,
      (l.foldl (fun s c => s.set c.1 c.2 (g c.1 c.2 (s.row c.2 c.1))) p).row y x =
        if (x, y) ∈ l then g x y (p.row y x) else p.row y x
  | [], _, _, _, _ => rfl
  | c :: l, p, nodup, x, y => by
    rw [List.foldl_cons, foldl_set_row g l _ (List.nodup_cons.mp nodup).2]
    by_cases here : (x, y) = c
    · subst here
      simp [set, (List.nodup_cons.mp nodup).1]
    · have visited : (x, y) ∈ c :: l ↔ (x, y) ∈ l := by simp [here]
      have other : ¬ (x = c.1 ∧ y = c.2) := fun ⟨sameX, sameY⟩ => here (by rw [sameX, sameY])
      simp only [visited, set, other, if_false]

/-- The rectangle loop whose body rewrites only the cell it visits. -/
theorem forEachCellIn_set_row (x0 x1 y0 y1 : ℕ) (g : ℕ → ℕ → T → T) (p : Plane T) (x y : ℕ) :
    (forEachCellIn x0 x1 y0 y1 (fun s x y => s.set x y (g x y (s.row y x))) p).row y x =
      if x0 ≤ x ∧ x < x1 ∧ y0 ≤ y ∧ y < y1 then g x y (p.row y x) else p.row y x := by
  rw [forEachCellIn_eq_foldl_cellsIn, foldl_set_row g _ p (nodup_cellsIn _ _ _ _)]
  simp only [mem_cellsIn]

/-- A rectangle loop over a pair whose first component evolves on its own computes that component
as the loop of its own. -/
theorem forEachCellIn_fst {τ : Type} (x0 x1 y0 y1 : ℕ) (body : σ × τ → ℕ → ℕ → σ × τ)
    (f : σ → ℕ → ℕ → σ) (fst : ∀ s x y, (body s x y).1 = f s.1 x y) (init : σ × τ) :
    (forEachCellIn x0 x1 y0 y1 body init).1 = forEachCellIn x0 x1 y0 y1 f init.1 := by
  rw [forEachCellIn_eq_foldl_cellsIn, forEachCellIn_eq_foldl_cellsIn]
  generalize cellsIn x0 x1 y0 y1 = l
  induction l generalizing init with
  | nil => rfl
  | cons c l ih => rw [List.foldl_cons, List.foldl_cons, ih, fst]

/-- **The per-cell loop** whose body reads and writes only the cell it visits:
`Row(y)[x] = f x y Row(y)[x]` at every cell of the plane. -/
def updateCells (p : Plane T) (f : ℕ → ℕ → T → T) : Plane T :=
  forEachCell p.xsize p.ysize (fun s x y => s.set x y (f x y (s.row y x))) p

@[simp] theorem updateCells_xsize (p : Plane T) (f : ℕ → ℕ → T → T) :
    (p.updateCells f).xsize = p.xsize :=
  forEachCell_induction (fun s : Plane T => s.xsize = p.xsize) (fun _ _ _ _ _ same => same) rfl

@[simp] theorem updateCells_ysize (p : Plane T) (f : ℕ → ℕ → T → T) :
    (p.updateCells f).ysize = p.ysize :=
  forEachCell_induction (fun s : Plane T => s.ysize = p.ysize) (fun _ _ _ _ _ same => same) rfl

theorem updateCells_row (p : Plane T) (f : ℕ → ℕ → T → T) (x y : ℕ) :
    (p.updateCells f).row y x =
      if x < p.xsize ∧ y < p.ysize then f x y (p.row y x) else p.row y x := by
  rw [updateCells, forEachCell, forEachCellIn_set_row]
  simp only [Nat.zero_le, true_and]

theorem updateCells_row_of_lt {p : Plane T} {x y : ℕ} (f : ℕ → ℕ → T → T) (left : x < p.xsize)
    (below : y < p.ysize) : (p.updateCells f).row y x = f x y (p.row y x) := by
  rw [updateCells_row, if_pos ⟨left, below⟩]

/-- `fillRect p x y cx cy v` writes `v` into the `cx × cy` cells whose top-left cell is `(x, y)`:
the loop `for iy < cy: for ix < cx: row[x + ix + iy * stride] = v`. -/
def fillRect (p : Plane T) (x y cx cy : ℕ) (v : T) : Plane T :=
  forEachCellIn x (x + cx) y (y + cy) (fun s x y => s.set x y v) p

@[simp] theorem fillRect_xsize (p : Plane T) (x y cx cy : ℕ) (v : T) :
    (p.fillRect x y cx cy v).xsize = p.xsize :=
  forEachCellIn_induction (fun s : Plane T => s.xsize = p.xsize) (fun _ _ _ same => same) rfl

@[simp] theorem fillRect_ysize (p : Plane T) (x y cx cy : ℕ) (v : T) :
    (p.fillRect x y cx cy v).ysize = p.ysize :=
  forEachCellIn_induction (fun s : Plane T => s.ysize = p.ysize) (fun _ _ _ same => same) rfl

theorem fillRect_row (p : Plane T) (x y cx cy : ℕ) (v : T) (x' y' : ℕ) :
    (p.fillRect x y cx cy v).row y' x' =
      if x ≤ x' ∧ x' < x + cx ∧ y ≤ y' ∧ y' < y + cy then v else p.row y' x' :=
  forEachCellIn_set_row x (x + cx) y (y + cy) (fun _ _ _ => v) p x' y'

/-- A one-cell rectangle is one write. -/
theorem fillRect_one_one (p : Plane T) (x y : ℕ) (v : T) : p.fillRect x y 1 1 v = p.set x y v := by
  ext y' x'
  · simp
  · simp
  · rw [fillRect_row, set_row]
    split_ifs <;> first | rfl | omega

/-- The plane with the samples `[x0, x1)` of row `y` replaced by `value`. -/
def writeRow (p : Plane T) (y x0 x1 : ℕ) (value : ℕ → T) : Plane T where
  xsize := p.xsize
  ysize := p.ysize
  row y' x := if y' = y ∧ x0 ≤ x ∧ x < x1 then value x else p.row y' x

@[simp] theorem writeRow_xsize (p : Plane T) (y x0 x1 : ℕ) (value : ℕ → T) :
    (p.writeRow y x0 x1 value).xsize = p.xsize := rfl

@[simp] theorem writeRow_ysize (p : Plane T) (y x0 x1 : ℕ) (value : ℕ → T) :
    (p.writeRow y x0 x1 value).ysize = p.ysize := rfl

theorem writeRow_row (p : Plane T) (y x0 x1 : ℕ) (value : ℕ → T) (x' y' : ℕ) :
    (p.writeRow y x0 x1 value).row y' x' =
      if y' = y ∧ x0 ≤ x' ∧ x' < x1 then value x' else p.row y' x' := rfl

/-- Writing an empty range changes nothing. -/
theorem writeRow_of_le (p : Plane T) {y x0 x1 : ℕ} (value : ℕ → T) (empty : x1 ≤ x0) :
    p.writeRow y x0 x1 value = p := by
  ext y' x'
  · rfl
  · rfl
  · rw [writeRow_row, if_neg (by omega)]

/-- Two adjacent ranges of one row, written with one function, write their union. -/
theorem writeRow_writeRow (p : Plane T) {y a b : ℕ} (c : ℕ) (value : ℕ → T) (le : a ≤ b) :
    (p.writeRow y a b value).writeRow y b c value = p.writeRow y a (max b c) value := by
  ext y' x'
  · rfl
  · rfl
  · simp only [writeRow_row]
    split_ifs <;> first | rfl | omega

/-- Storing `value x` right after the range `[x0, x)` extends the range by one sample. -/
theorem writeRow_set (p : Plane T) {y x0 x : ℕ} (value : ℕ → T) (le : x0 ≤ x) :
    (p.writeRow y x0 x value).set x y (value x) = p.writeRow y x0 (x + 1) value := by
  ext y' x'
  · rfl
  · rfl
  · simp only [set_row, writeRow_row]
    split_ifs with here <;> first | rfl | omega | rw [here.1]

/-- Storing one sample writes the range of that sample. -/
theorem set_eq_writeRow (p : Plane T) (y x : ℕ) (value : ℕ → T) :
    p.set x y (value x) = p.writeRow y x (x + 1) value := by
  rw [← writeRow_set p value le_rfl, writeRow_of_le p value le_rfl]

/-- The loop `for (j = 0; j < n; ++j) row[x + j] = value(x + j)` writes the range `[x, x + n)`. -/
theorem foldl_set_eq_writeRow (y x : ℕ) (value : ℕ → T) :
    ∀ (n : ℕ) (p : Plane T),
      (List.range n).foldl (fun p j => p.set (x + j) y (value (x + j))) p =
        p.writeRow y x (x + n) value
  | 0, p => (writeRow_of_le p value (Nat.le_refl _)).symm
  | n + 1, p => by
    rw [List.range_succ, List.foldl_append, foldl_set_eq_writeRow y x value n p, List.foldl_cons,
      List.foldl_nil, writeRow_set p value (Nat.le_add_right x n), Nat.add_assoc]

/-- A loop whose every step keeps the size of the plane keeps it. -/
theorem foldl_size {α : Type} (f : Plane T → α → Plane T)
    (keeps : ∀ p a, (f p a).xsize = p.xsize ∧ (f p a).ysize = p.ysize) :
    ∀ (l : List α) (p : Plane T), (l.foldl f p).xsize = p.xsize ∧ (l.foldl f p).ysize = p.ysize
  | [], _ => ⟨rfl, rfl⟩
  | a :: l, p => by
    rw [List.foldl_cons, (foldl_size f keeps l _).1, (foldl_size f keeps l _).2]
    exact keeps p a

section MinMax

variable [LinearOrder T]

/-- Modelled from the spec: `ImageMinMax` (declared in `image_ops.h`, which is not among the
sources) gives "min/max(field)", the least and the greatest sample of the plane. The fold starts
from the sample at `(0, 0)`; on an empty plane, which no caller passes, the model returns it. -/
def imageMinMax (p : Plane T) : T × T :=
  forEachCell p.xsize p.ysize (fun m x y => (min m.1 (p.row y x), max m.2 (p.row y x)))
    (p.row 0 0, p.row 0 0)

/-- A loop that updates two accumulators independently is two loops. -/
theorem foldl_pair {α β γ : Type} (f : α → γ → α) (g : β → γ → β) (l : List γ) (a : α) (b : β) :
    l.foldl (fun m c => (f m.1 c, g m.2 c)) (a, b) = (l.foldl f a, l.foldl g b) := by
  induction l generalizing a b with
  | nil => rfl
  | cons c l ih => exact ih (f a c) (g b c)

/-- The running minimum is below its start and every visited value, and is one of them. -/
theorem foldl_min_spec {α : Type} (v : α → T) (l : List α) (a : T) :
    l.foldl (fun m c => min m (v c)) a ≤ a ∧ (∀ c ∈ l, l.foldl (fun m c => min m (v c)) a ≤ v c) ∧
      (l.foldl (fun m c => min m (v c)) a = a ∨ ∃ c ∈ l, l.foldl (fun m c => min m (v c)) a = v c) := by
  induction l generalizing a with
  | nil => simp
  | cons c l ih =>
    obtain ⟨start, visited, choice⟩ := ih (min a (v c))
    refine ⟨start.trans (min_le_left _ _), ?_, ?_⟩
    · simp only [List.mem_cons, forall_eq_or_imp]
      exact ⟨start.trans (min_le_right _ _), visited⟩
    · rcases choice with same | ⟨c', member, same⟩
      · rcases min_choice a (v c) with pick | pick
        · exact .inl (same.trans pick)
        · exact .inr ⟨c, List.mem_cons_self _ _, same.trans pick⟩
      · exact .inr ⟨c', List.mem_cons_of_mem _ member, same⟩

/-- The running maximum is above its start and every visited value, and is one of them. -/
theorem foldl_max_spec {α : Type} (v : α → T) (l : List α) (a : T) :
    a ≤ l.foldl (fun m c => max m (v c)) a ∧ (∀ c ∈ l, v c ≤ l.foldl (fun m c => max m (v c)) a) ∧
      (l.foldl (fun m c => max m (v c)) a = a ∨ ∃ c ∈ l, l.foldl (fun m c => max m (v c)) a = v c) := by
  induction l generalizing a with
  | nil => simp
  | cons c l ih =>
    obtain ⟨start, visited, choice⟩ := ih (max a (v c))
    refine ⟨(le_max_left _ _).trans start, ?_, ?_⟩
    · simp only [List.mem_cons, forall_eq_or_imp]
      exact ⟨(le_max_right _ _).trans start, visited⟩
    · rcases choice with same | ⟨c', member, same⟩
      · rcases max_choice a (v c) with pick | pick
        · exact .inl (same.trans pick)
        · exact .inr ⟨c, List.mem_cons_self _ _, same.trans pick⟩
      · exact .inr ⟨c', List.mem_cons_of_mem _ member, same⟩

/-- The minimum of `imageMinMax` is the running minimum over the cells. -/
theorem imageMinMax_fst (p : Plane T) : (imageMinMax p).1 =
    (cells p.xsize p.ysize).foldl (fun m c => min m (p.row c.2 c.1)) (p.row 0 0) := by
  rw [imageMinMax, forEachCell_eq_foldl_cells]
  exact congrArg Prod.fst (foldl_pair (fun m (c : ℕ × ℕ) => min m (p.row c.2 c.1))
    (fun m (c : ℕ × ℕ) => max m (p.row c.2 c.1)) _ _ _)

/-- The maximum of `imageMinMax` is the running maximum over the cells. -/
theorem imageMinMax_snd (p : Plane T) : (imageMinMax p).2 =
    (cells p.xsize p.ysize).foldl (fun m c => max m (p.row c.2 c.1)) (p.row 0 0) := by
  rw [imageMinMax, forEachCell_eq_foldl_cells]
  exact congrArg Prod.snd (foldl_pair (fun m (c : ℕ × ℕ) => min m (p.row c.2 c.1))
    (fun m (c : ℕ × ℕ) => max m (p.row c.2 c.1)) _ _ _)

variable {p : Plane T}

theorem imageMinMax_fst_le {x y : ℕ} (left : x < p.xsize) (below : y < p.ysize) :
    (imageMinMax p).1 ≤ p.row y x := by
  rw [imageMinMax_fst]
  exact (foldl_min_spec (fun c : ℕ × ℕ => p.row c.2 c.1) _ _).2.1 (x, y) (mem_cells.mpr ⟨left, below⟩)

theorem le_imageMinMax_snd {x y : ℕ} (left : x < p.xsize) (below : y < p.ysize) :
    p.row y x ≤ (imageMinMax p).2 := by
  rw [imageMinMax_snd]
  exact (foldl_max_spec (fun c : ℕ × ℕ => p.row c.2 c.1) _ _).2.1 (x, y) (mem_cells.mpr ⟨left, below⟩)

/-- On a non-empty plane the minimum is a sample. -/
theorem exists_imageMinMax_fst (nonempty : 0 < p.xsize ∧ 0 < p.ysize) :
    ∃ x y, x < p.xsize ∧ y < p.ysize ∧ (imageMinMax p).1 = p.row y x := by
  rw [imageMinMax_fst]
  rcases (foldl_min_spec (fun c : ℕ × ℕ => p.row c.2 c.1) _ _).2.2 with first | ⟨c, member, found⟩
  · exact ⟨0, 0, nonempty.1, nonempty.2, first⟩
  · exact ⟨c.1, c.2, (mem_cells.mp member).1, (mem_cells.mp member).2, found⟩

/-- On a non-empty plane the maximum is a sample. -/
theorem exists_imageMinMax_snd (nonempty : 0 < p.xsize ∧ 0 < p.ysize) :
    ∃ x y, x < p.xsize ∧ y < p.ysize ∧ (imageMinMax p).2 = p.row y x := by
  rw [imageMinMax_snd]
  rcases (foldl_max_spec (fun c : ℕ × ℕ => p.row c.2 c.1) _ _).2.2 with first | ⟨c, member, found⟩
  · exact ⟨0, 0, nonempty.1, nonempty.2, first⟩
  · exact ⟨c.1, c.2, (mem_cells.mp member).1, (mem_cells.mp member).2, found⟩

end MinMax

end Plane

/-- A three-channel image (`Image3F`): three planes of one size, `plane c y x` being
`PlaneRow(c, y)[x]`. -/
structure Image3 (T : Type) where
  xsize : ℕ
  ysize : ℕ
  plane : Fin 3 → ℕ → ℕ → T

end JxlEncoder
