import JxlEncoder.Image.Plane

/-! # AC strategies and the first-block scan

Every 8×8 block of a frame carries an `AcStrategy`: the transform covering it, which may span
`covered_blocks_x × covered_blocks_y` blocks, and whether the block is the top-left *first block*
of that transform. A valid tiling (`AcStrategyImage.Tiling`) puts every block of the grid in
exactly one transform, each inside the grid.

Three loops of the encoder (`AdjustQuantField`, `TileDistMap`, `FindBestQuantizationMaxError`)
walk the grid in row-major order and, at each first block, read and rewrite the cells of its
transform (`AcStrategyImage.forEachFirstBlock`). Because the transforms are disjoint, each is
visited once and finds its cells as the loop received them: the result on a transform is what
the body computes from the initial plane (`AcStrategyImage.forEachFirstBlock_row`).
-/

namespace JxlEncoder

/-- `kBlockDim`, the side of a block, and `kDCTBlockSize`, the coefficients of an 8×8 block. -/
def kBlockDim : ℕ := 8

def kDCTBlockSize : ℕ := 64

/-- The transform choice of one block (`AcStrategy`): whether the block is the first block of its
transform, and how many blocks the transform covers across and down. Every transform covers at
least one block each way. -/
structure AcStrategy where
  isFirstBlock : Bool
  coveredBlocksX : ℕ
  coveredBlocksY : ℕ
  coveredBlocksX_pos : 0 < coveredBlocksX
  coveredBlocksY_pos : 0 < coveredBlocksY
  deriving DecidableEq

/-- `AcStrategy::Type::DCT`, the 8×8 transform: a single block, first of its own transform. -/
def AcStrategy.dct : AcStrategy := ⟨true, 1, 1, Nat.one_pos, Nat.one_pos⟩

/-- The AC strategy image: the strategy of every block of the frame. -/
abbrev AcStrategyImage := Plane AcStrategy

namespace AcStrategyImage

variable (acs : AcStrategyImage)

/-- `(ax, ay)` is a block of the grid marked as the first block of its transform. -/
def IsFirst (ax ay : ℕ) : Prop :=
  ax < acs.xsize ∧ ay < acs.ysize ∧ (acs.row ay ax).isFirstBlock = true

instance (ax ay : ℕ) : Decidable (acs.IsFirst ax ay) := inferInstanceAs (Decidable (_ ∧ _ ∧ _))

/-- Block `(x, y)` lies in the transform whose first block is `(ax, ay)`, the blocks
`[ax, ax + covered_blocks_x) × [ay, ay + covered_blocks_y)`. -/
def InRegion (ax ay x y : ℕ) : Prop :=
  ax ≤ x ∧ x < ax + (acs.row ay ax).coveredBlocksX ∧
    ay ≤ y ∧ y < ay + (acs.row ay ax).coveredBlocksY

instance (ax ay x y : ℕ) : Decidable (acs.InRegion ax ay x y) :=
  inferInstanceAs (Decidable (_ ∧ _ ∧ _ ∧ _))

/-- **A valid AC-strategy tiling** of the block grid: every transform lies inside the grid, and
every block of the grid lies in exactly one transform. -/
structure Tiling : Prop where
  inside : ∀ ax ay, acs.IsFirst ax ay →
    ax + (acs.row ay ax).coveredBlocksX ≤ acs.xsize ∧ ay + (acs.row ay ax).coveredBlocksY ≤ acs.ysize
  covers : ∀ x y, x < acs.xsize → y < acs.ysize →
    ∃! a : ℕ × ℕ, acs.IsFirst a.1 a.2 ∧ acs.InRegion a.1 a.2 x y

/-- A plane is constant on every transform: each cell holds the value of its first block. -/
def RegionConstant {T : Type} (p : Plane T) : Prop :=
  ∀ ax ay x y, acs.IsFirst ax ay → acs.InRegion ax ay x y → p.row y x = p.row ay ax

variable {acs}

theorem inRegion_self (ax ay : ℕ) : acs.InRegion ax ay ax ay :=
  ⟨le_rfl, Nat.lt_add_of_pos_right (acs.row ay ax).coveredBlocksX_pos, le_rfl,
    Nat.lt_add_of_pos_right (acs.row ay ax).coveredBlocksY_pos⟩

section Fill

variable {T : Type} {ax ay x y : ℕ}

/-- Writing `v` over the transform of `(ax, ay)` puts `v` on its blocks. -/
theorem fillRect_row_of_inRegion (p : Plane T) (v : T) (inRegion : acs.InRegion ax ay x y) :
    (p.fillRect ax ay (acs.row ay ax).coveredBlocksX (acs.row ay ax).coveredBlocksY v).row y x = v :=
  (Plane.fillRect_row _ _ _ _ _ _ _ _).trans (if_pos inRegion)

/-- Writing over the transform of `(ax, ay)` leaves the other cells alone. -/
theorem fillRect_row_of_not_inRegion (p : Plane T) (v : T) (outside : ¬ acs.InRegion ax ay x y) :
    (p.fillRect ax ay (acs.row ay ax).coveredBlocksX (acs.row ay ax).coveredBlocksY v).row y x =
      p.row y x :=
  (Plane.fillRect_row _ _ _ _ _ _ _ _).trans (if_neg outside)

end Fill

/-- A per-cell loop keeps a plane constant on transforms when the rewrite it applies is the same
at every block of a transform. -/
theorem RegionConstant.updateCells {T : Type} {p : Plane T} (tiling : acs.Tiling)
    (sized : p.xsize = acs.xsize ∧ p.ysize = acs.ysize) (const : acs.RegionConstant p)
    {f : ℕ → ℕ → T → T}
    (uniform : ∀ ax ay x y, acs.IsFirst ax ay → acs.InRegion ax ay x y → f x y = f ax ay) :
    acs.RegionConstant (p.updateCells f) := fun ax ay x y first inRegion => by
  have fits := tiling.inside ax ay first
  obtain ⟨afterX, beforeX, afterY, beforeY⟩ := inRegion
  rw [Plane.updateCells_row_of_lt f (by omega) (by omega),
    Plane.updateCells_row_of_lt f (by omega) (by omega),
    uniform ax ay x y first ⟨afterX, beforeX, afterY, beforeY⟩,
    const ax ay x y first ⟨afterX, beforeX, afterY, beforeY⟩]

namespace Tiling

variable (tiling : acs.Tiling) {ax ay x y : ℕ}
include tiling

/-- A block of a transform is a block of the grid. -/
theorem lt_of_inRegion (first : acs.IsFirst ax ay) (inRegion : acs.InRegion ax ay x y) :
    x < acs.xsize ∧ y < acs.ysize := by
  have fits := tiling.inside ax ay first
  exact ⟨by unfold InRegion at inRegion; omega, by unfold InRegion at inRegion; omega⟩

/-- Two transforms that share a block are the same transform. -/
theorem eq_of_inRegion {ax' ay' : ℕ} (first : acs.IsFirst ax ay) (first' : acs.IsFirst ax' ay')
    (inRegion : acs.InRegion ax ay x y) (inRegion' : acs.InRegion ax' ay' x y) :
    (ax, ay) = (ax', ay') := by
  obtain ⟨left, below⟩ := tiling.lt_of_inRegion first inRegion
  exact (tiling.covers x y left below).unique ⟨first, inRegion⟩ ⟨first', inRegion'⟩

/-- Every block of the grid has a transform. -/
theorem exists_first (left : x < acs.xsize) (below : y < acs.ysize) :
    ∃ ax ay, acs.IsFirst ax ay ∧ acs.InRegion ax ay x y :=
  let ⟨a, found, _⟩ := tiling.covers x y left below
  ⟨a.1, a.2, found⟩

end Tiling

/-- A grid of 8×8 transforms is a valid tiling, whatever its size. -/
theorem tiling_filled_dct (xsize ysize : ℕ) :
    Tiling (Plane.filled xsize ysize AcStrategy.dct) where
  inside _ _ first := ⟨first.1, first.2.1⟩
  covers x y left below := ⟨(x, y), ⟨⟨left, below, rfl⟩, x.le_refl, x.lt_succ_self, y.le_refl,
      y.lt_succ_self⟩, fun a ⟨_, after, before, after', before'⟩ => by
    change x < a.1 + 1 at before
    change y < a.2 + 1 at before'
    ext <;> dsimp only <;> omega⟩

section Scan

variable {T σ : Type}

/-- **The first-block scan**: the row-major loop over an `xsize × ysize` grid that runs `body` at
every block whose strategy is marked first, `if (!acs.IsFirstBlock()) continue;` otherwise. -/
def forEachFirstBlock (acs : AcStrategyImage) (xsize ysize : ℕ) (body : σ → ℕ → ℕ → σ)
    (init : σ) : σ :=
  Plane.forEachCell xsize ysize
    (fun s x y => if (acs.row y x).isFirstBlock then body s x y else s) init

/-- A property that the body keeps at every first block holds after the scan. -/
theorem forEachFirstBlock_induction {acs : AcStrategyImage} {xsize ysize : ℕ}
    {body : σ → ℕ → ℕ → σ} {init : σ} (P : σ → Prop) (step : ∀ s x y, P s → P (body s x y))
    (start : P init) : P (acs.forEachFirstBlock xsize ysize body init) :=
  Plane.forEachCell_induction P (fun s x y _ _ holds => by
    split
    · exact step s x y holds
    · exact holds) start

/-- A scan body that is local to its transform: at a first block it writes only the cells of the
transform, and what it writes there depends only on those cells. -/
structure RegionLocal (acs : AcStrategyImage) (body : Plane T → ℕ → ℕ → Plane T) : Prop where
  frame : ∀ s ax ay x y, acs.IsFirst ax ay → ¬ acs.InRegion ax ay x y →
    (body s ax ay).row y x = s.row y x
  reads : ∀ s s' ax ay, acs.IsFirst ax ay →
    (∀ x y, acs.InRegion ax ay x y → s.row y x = s'.row y x) →
    ∀ x y, acs.InRegion ax ay x y → (body s ax ay).row y x = (body s' ax ay).row y x

/-- The scan invariant after the blocks of `done`: each transform whose first block is in `done`
holds what `body` writes into `init`, and every other cell still holds `init`. -/
def ScanInv (acs : AcStrategyImage) (body : Plane T → ℕ → ℕ → Plane T) (init : Plane T)
    (done : List (ℕ × ℕ)) (s : Plane T) : Prop :=
  (∀ a ∈ done, ∀ x y, acs.IsFirst a.1 a.2 → acs.InRegion a.1 a.2 x y →
      s.row y x = (body init a.1 a.2).row y x) ∧
    ∀ x y, (∀ a ∈ done, acs.IsFirst a.1 a.2 → ¬ acs.InRegion a.1 a.2 x y) → s.row y x = init.row y x

variable {body : Plane T → ℕ → ℕ → Plane T} {init : Plane T}

/-- One block of the scan keeps the invariant: a first block not yet visited finds its transform
as `init` had it. -/
theorem scanInv_step (tiling : acs.Tiling) (local_ : RegionLocal acs body) {done : List (ℕ × ℕ)}
    {s : Plane T} {a : ℕ × ℕ} (fresh : a ∉ done) (left : a.1 < acs.xsize) (below : a.2 < acs.ysize)
    (inv : ScanInv acs body init done s) :
    ScanInv acs body init (done ++ [a])
      (if (acs.row a.2 a.1).isFirstBlock then body s a.1 a.2 else s) := by
  obtain ⟨visited, untouched⟩ := inv
  split
  case isFalse notFirst =>
    refine ⟨fun a' member x y first' => ?_, fun x y outside =>
      untouched x y fun a' member => outside a' (List.mem_append_left _ member)⟩
    rcases List.mem_append.mp member with member | single
    · exact visited a' member x y first'
    · obtain rfl := List.mem_singleton.mp single
      exact absurd first'.2.2 notFirst
  case isTrue isFirst =>
    have first : acs.IsFirst a.1 a.2 := ⟨left, below, isFirst⟩
    have elsewhere : ∀ a' ∈ done, ∀ x y, acs.IsFirst a'.1 a'.2 → acs.InRegion a'.1 a'.2 x y →
        ¬ acs.InRegion a.1 a.2 x y := fun a' member x y first' inRegion' inRegion =>
      have same := tiling.eq_of_inRegion first first' inRegion inRegion'
      fresh (by rw [Prod.mk.eta, Prod.mk.eta] at same; exact same ▸ member)
    refine ⟨fun a' member x y first' inRegion' => ?_, fun x y outside => ?_⟩
    · rcases List.mem_append.mp member with member | single
      · rw [local_.frame s a.1 a.2 x y first (elsewhere a' member x y first' inRegion')]
        exact visited a' member x y first' inRegion'
      · obtain rfl := List.mem_singleton.mp single
        refine local_.reads s init a'.1 a'.2 first (fun x' y' inRegion => ?_) x y inRegion'
        exact untouched x' y' fun a'' member' first'' inRegion'' =>
          elsewhere a'' member' x' y' first'' inRegion'' inRegion
    · rw [local_.frame s a.1 a.2 x y first (outside a (List.mem_append_right _ (.head _)) first)]
      exact untouched x y fun a' member => outside a' (List.mem_append_left _ member)

/-- The scan over a list of fresh blocks of the grid keeps the invariant. -/
theorem scanInv_foldl (tiling : acs.Tiling) (local_ : RegionLocal acs body) :
    ∀ (todo done : List (ℕ × ℕ)) (s : Plane T),
      (∀ a ∈ todo, a.1 < acs.xsize ∧ a.2 < acs.ysize) → (done ++ todo).Nodup →
      ScanInv acs body init done s →
      ScanInv acs body init (done ++ todo) (todo.foldl
        (fun s c => if (acs.row c.2 c.1).isFirstBlock then body s c.1 c.2 else s) s)
  | [], done, s, _, _, inv => by simpa using inv
  | a :: todo, done, s, inGrid, nodup, inv => by
    have fresh : a ∉ done := fun member =>
      (List.nodup_append.mp nodup).2.2 member (List.mem_cons_self a todo)
    have step := scanInv_step tiling local_ fresh (inGrid a (.head _)).1 (inGrid a (.head _)).2 inv
    have rest := scanInv_foldl tiling local_ todo (done ++ [a]) _
      (fun a' member => inGrid a' (.tail _ member)) (by simpa using nodup) step
    simpa using rest

/-- The scan over the whole grid satisfies the invariant for every block. -/
theorem scanInv_forEachFirstBlock (tiling : acs.Tiling) (local_ : RegionLocal acs body) :
    ScanInv acs body init (Plane.cells acs.xsize acs.ysize)
      (acs.forEachFirstBlock acs.xsize acs.ysize body init) := by
  rw [forEachFirstBlock, Plane.forEachCell_eq_foldl_cells]
  exact scanInv_foldl tiling local_ _ [] init (fun a member => Plane.mem_cells.mp member)
    (Plane.nodup_cells _ _) ⟨fun _ member => absurd member (List.not_mem_nil _),
      fun _ _ _ => rfl⟩

/-- **Each transform is rewritten once, from the cells the scan received**: on the transform of
a first block the scan leaves what `body` computes from `init` there. -/
theorem forEachFirstBlock_row (tiling : acs.Tiling) (local_ : RegionLocal acs body)
    {ax ay x y : ℕ} (first : acs.IsFirst ax ay) (inRegion : acs.InRegion ax ay x y) :
    (acs.forEachFirstBlock acs.xsize acs.ysize body init).row y x = (body init ax ay).row y x :=
  (scanInv_forEachFirstBlock tiling local_).1 (ax, ay)
    (Plane.mem_cells.mpr ⟨first.1, first.2.1⟩) x y first inRegion

/-- Cells outside the grid keep their samples. -/
theorem forEachFirstBlock_row_outside (tiling : acs.Tiling) (local_ : RegionLocal acs body)
    {x y : ℕ} (outside : ¬ (x < acs.xsize ∧ y < acs.ysize)) :
    (acs.forEachFirstBlock acs.xsize acs.ysize body init).row y x = init.row y x :=
  (scanInv_forEachFirstBlock tiling local_).2 x y fun _ _ first inRegion =>
    outside (tiling.lt_of_inRegion first inRegion)

end Scan

section Partition

variable {σ : Type}

/-- The first blocks of the grid, in row-major order. -/
def firstBlocks (acs : AcStrategyImage) : List (ℕ × ℕ) :=
  (Plane.cells acs.xsize acs.ysize).filter fun a => (acs.row a.2 a.1).isFirstBlock

/-- The blocks of the transform whose first block is `a`, in row-major order. -/
def regionCells (acs : AcStrategyImage) (a : ℕ × ℕ) : List (ℕ × ℕ) :=
  Plane.cellsIn a.1 (a.1 + (acs.row a.2 a.1).coveredBlocksX) a.2
    (a.2 + (acs.row a.2 a.1).coveredBlocksY)

@[simp] theorem mem_firstBlocks {a : ℕ × ℕ} : a ∈ acs.firstBlocks ↔ acs.IsFirst a.1 a.2 := by
  simp [firstBlocks, IsFirst, and_assoc]

@[simp] theorem mem_regionCells {a c : ℕ × ℕ} :
    c ∈ acs.regionCells a ↔ acs.InRegion a.1 a.2 c.1 c.2 := by
  simp [regionCells, InRegion]

theorem foldl_filter {α : Type} (p : α → Bool) (f : σ → α → σ) :
    ∀ (l : List α) (init : σ),
      (l.filter p).foldl f init = l.foldl (fun s a => if p a then f s a else s) init
  | [], _ => rfl
  | a :: l, init => by
    cases first : p a <;> simp [List.filter_cons, first, foldl_filter p f l]

/-- The first-block scan over the whole grid visits the first blocks one after the other. -/
theorem forEachFirstBlock_eq_foldl_firstBlocks (body : σ → ℕ → ℕ → σ) (init : σ) :
    acs.forEachFirstBlock acs.xsize acs.ysize body init =
      acs.firstBlocks.foldl (fun s a => body s a.1 a.2) init := by
  rw [forEachFirstBlock, Plane.forEachCell_eq_foldl_cells, firstBlocks, foldl_filter]

/-- A property that the body keeps at every first block of the grid holds after the scan over
the whole grid. -/
theorem forEachFirstBlock_induction_of_isFirst (P : σ → Prop) {body : σ → ℕ → ℕ → σ} {init : σ}
    (step : ∀ s x y, acs.IsFirst x y → P s → P (body s x y)) (start : P init) :
    P (acs.forEachFirstBlock acs.xsize acs.ysize body init) := by
  rw [forEachFirstBlock_eq_foldl_firstBlocks]
  suffices run : ∀ l : List (ℕ × ℕ), (∀ a ∈ l, acs.IsFirst a.1 a.2) →
      ∀ s, P s → P (l.foldl (fun s a => body s a.1 a.2) s) from
    run _ (fun a member => mem_firstBlocks.mp member) _ start
  intro l
  induction l with
  | nil => exact fun _ _ holds => holds
  | cons a l ih =>
    exact fun firsts s holds => ih (fun b member => firsts b (.tail _ member)) _
      (step s a.1 a.2 (firsts a (.head _)) holds)

/-- A quantity that the body raises by at most `f x y` at every first block is raised by at most
the sum of `f` over the first blocks. -/
theorem forEachFirstBlock_le_sum (g : σ → ℕ) (f : ℕ → ℕ → ℕ) {body : σ → ℕ → ℕ → σ}
    (step : ∀ s x y, g (body s x y) ≤ g s + f x y) (init : σ) :
    g (acs.forEachFirstBlock acs.xsize acs.ysize body init) ≤
      g init + (acs.firstBlocks.map fun a => f a.1 a.2).sum := by
  rw [forEachFirstBlock_eq_foldl_firstBlocks]
  induction acs.firstBlocks generalizing init with
  | nil => simp
  | cons a l ih =>
    have next := ih (body init a.1 a.2)
    have first := step init a.1 a.2
    simp only [List.foldl_cons, List.map_cons, List.sum_cons] at next ⊢
    omega

/-- A quantity that the body raises by exactly `f x y` at every first block is raised by the sum
of `f` over the first blocks. -/
theorem forEachFirstBlock_eq_sum (g : σ → ℕ) (f : ℕ → ℕ → ℕ) {body : σ → ℕ → ℕ → σ}
    (step : ∀ s x y, g (body s x y) = g s + f x y) (init : σ) :
    g (acs.forEachFirstBlock acs.xsize acs.ysize body init) =
      g init + (acs.firstBlocks.map fun a => f a.1 a.2).sum := by
  rw [forEachFirstBlock_eq_foldl_firstBlocks]
  induction acs.firstBlocks generalizing init with
  | nil => simp
  | cons a l ih =>
    simp only [List.foldl_cons, List.map_cons, List.sum_cons, ih, step]
    omega

/-- **The transforms of a tiling partition the grid**: the blocks of the grid are the blocks of
the transforms, each once. -/
theorem Tiling.cells_perm (tiling : acs.Tiling) :
    (Plane.cells acs.xsize acs.ysize).Perm (acs.firstBlocks.flatMap acs.regionCells) := by
  refine (List.perm_ext_iff_of_nodup (Plane.nodup_cells _ _) ?_).mpr fun c => ?_
  · refine List.nodup_flatMap.mpr ⟨fun a _ => Plane.nodup_cellsIn _ _ _ _, ?_⟩
    refine ((Plane.nodup_cells _ _).filter _).pairwise_of_forall_ne
      fun a memA b memB distinct c inA inB => distinct ?_
    simpa using tiling.eq_of_inRegion (mem_firstBlocks.mp memA) (mem_firstBlocks.mp memB)
      (mem_regionCells.mp inA) (mem_regionCells.mp inB)
  · simp only [Plane.mem_cells, List.mem_flatMap, mem_firstBlocks, mem_regionCells]
    constructor
    · rintro ⟨left, below⟩
      obtain ⟨ax, ay, first, inRegion⟩ := tiling.exists_first left below
      exact ⟨(ax, ay), first, inRegion⟩
    · rintro ⟨a, first, inRegion⟩
      exact tiling.lt_of_inRegion first inRegion

/-- **A tiling's transforms cover `xsize · ysize` blocks in all.** -/
theorem Tiling.sum_coveredBlocks (tiling : acs.Tiling) :
    (acs.firstBlocks.map fun a => (acs.row a.2 a.1).coveredBlocksX *
      (acs.row a.2 a.1).coveredBlocksY).sum = acs.xsize * acs.ysize := by
  have blocks := tiling.cells_perm.length_eq
  simp only [Plane.cells, Plane.length_cellsIn, List.length_flatMap, Function.comp_def, regionCells,
    Nat.add_sub_cancel_left, Nat.sub_zero] at blocks
  exact blocks.symm

end Partition

end AcStrategyImage

/-! ### A row of an 8×8 transform and a transform two blocks wide -/

/-- A transform two blocks across and one down. -/
def AcStrategy.wide (first : Bool) : AcStrategy := ⟨first, 2, 1, by decide, by decide⟩

/-- An 8×8 transform followed by a transform two blocks wide. -/
def rowOfThree : AcStrategyImage :=
  ⟨3, 1, fun _ x => if x = 0 then AcStrategy.dct else AcStrategy.wide (x = 1)⟩

section RowOfThree

open AcStrategyImage

theorem isFirst_rowOfThree {ax ay : ℕ} : rowOfThree.IsFirst ax ay ↔ ay = 0 ∧ (ax = 0 ∨ ax = 1) := by
  unfold IsFirst rowOfThree
  constructor
  · rintro ⟨left, below, first⟩
    interval_cases ax <;> simp_all [AcStrategy.dct, AcStrategy.wide]
  · rintro ⟨rfl, rfl | rfl⟩ <;> decide

theorem tiling_rowOfThree : rowOfThree.Tiling where
  inside ax ay first := by
    obtain ⟨rfl, rfl | rfl⟩ := isFirst_rowOfThree.mp first <;> decide
  covers x y left below := by
    change x < 3 at left
    obtain rfl : y = 0 := by change y < 1 at below; omega
    refine ⟨(if x = 0 then 0 else 1, 0), ⟨isFirst_rowOfThree.mpr ⟨rfl, by split <;> simp⟩, ?_⟩, ?_⟩
    · interval_cases x <;> decide
    · rintro ⟨ax, ay⟩ ⟨first, inRegion⟩
      obtain ⟨rfl, rfl | rfl⟩ := isFirst_rowOfThree.mp first <;>
        interval_cases x <;> simp_all [InRegion, rowOfThree, AcStrategy.dct, AcStrategy.wide]

end RowOfThree

end JxlEncoder
