import JxlEncoder.AdaptiveQuantization.DiffPrecompute

/-! # The initial quant field: `InitialQuantField`

The field the searches start from is `AdaptiveQuantizationMap` of the opsin image. The local
differences of `DiffPrecompute`, padded to whole blocks, are smoothed by a Gaussian and sampled
once per block by `ConvolveAndSample`; `PerBlockModulations` then turns each block's sample into
a quant, reading the AC intensity estimates of the X and Y channels (`IntensityAcEstimate`: each
sample of the padded frame minus its `Symmetric3` smoothing).

The filters are not among the sources; they are given as data (`FilterFns`), with the sizes of
what they return as a hypothesis (`FilterFns.Sized`). Over every opsin image and frame,
`AdaptiveQuantizationMap`'s own `JXL_ASSERT` always holds, since `DiffPrecompute` pads to whole
blocks (`adaptiveQuantizationMap_eq`). When the padded frame has as many blocks as the frame each
way, the field has one cell per block of the frame (`initialQuantField_cells`): NaN where the
block's smoothed difference is NaN, 0 at a block where the gamma modulation takes `std::log(0)`,
and `exp(t) · kAcQuant / target · rescale` for a finite exponent `t` elsewhere. Without flat dark
pixels the SIMD width of `DiffPrecompute` does not change the field (`initialQuantField_lanes`).
-/

namespace JxlEncoder

variable {F : Type} [LinearOrderedField F]

/-- The sizes of the frame that the initial field reads (`FrameDimensions`, not among the
sources): `xsize × ysize` and `xsize_padded × ysize_padded`. -/
structure FrameDimensions where
  xsize : ℕ
  ysize : ℕ
  xsizePadded : ℕ
  ysizePadded : ℕ

/-- The weights of a symmetric 3×3 kernel (`WeightsSymmetric3`): the centre, the four edge
neighbours and the four corners. -/
structure WeightsSymmetric3 (F : Type) where
  c : F
  r : F
  d : F

/-- The filters the initial field calls, which are not among the sources: `Symmetric3` of a
plane over the `xsize × ysize` rect at the origin, `GaussianKernel(radius, sigma)`, and
`ConvolveAndSample(in, kernel, step)`. -/
structure FilterFns (F : Type) where
  symmetric3 : Plane F → ℕ → ℕ → WeightsSymmetric3 F → Plane F
  gaussianKernel : ℕ → F → List F
  convolveAndSample : Plane (FloatVal F) → List F → ℕ → Plane (FloatVal F)

/-- The sizes the filters return: `Symmetric3` fills its rect, and `ConvolveAndSample` keeps one
sample in `step` each way of a plane of whole steps. -/
structure FilterFns.Sized (filters : FilterFns F) : Prop where
  symmetric3 : ∀ p xsize ysize weights,
    (filters.symmetric3 p xsize ysize weights).xsize = xsize ∧
      (filters.symmetric3 p xsize ysize weights).ysize = ysize
  convolveAndSample : ∀ p kernel step, p.xsize % step = 0 → p.ysize % step = 0 →
    (filters.convolveAndSample p kernel step).xsize = p.xsize / step ∧
      (filters.convolveAndSample p kernel step).ysize = p.ysize / step

/-- Channel `c` of an image as a plane: `Image3F::Plane(c)`. -/
def Image3.channel {T : Type} (image : Image3 T) (c : Fin 3) : Plane T :=
  ⟨image.xsize, image.ysize, image.plane c⟩

/-- **`WeightsSymmetric3GaussianDC`**. -/
def weightsSymmetric3GaussianDC : WeightsSymmetric3 F := ⟨0.320356, 0.122822, 0.047089⟩

/-- **`IntensityAcEstimate`**: over the `xsize_padded × ysize_padded` rect, every sample minus its
`Symmetric3` smoothing with the Gaussian weights, `row_smooth[x] = row_opsin[x] - row_smooth[x]`. -/
def intensityAcEstimate (filters : FilterFns F) (opsinY : Plane F) (frameDim : FrameDimensions) :
    Plane F :=
  let xsize := frameDim.xsizePadded
  let ysize := frameDim.ysizePadded
  let smoothed := filters.symmetric3 opsinY xsize ysize weightsSymmetric3GaussianDC
  Plane.forEachCell xsize ysize (fun s x y => s.set x y (opsinY.row y x - s.row y x)) smoothed

/-- `kSigma` of the Gaussian that smooths the local differences. -/
def kSigma : F := 8.2553856725566153

/-- `kRadius = static_cast<int>(2 * kSigma + 0.5f)`. -/
def kRadius : ℕ := ⌊2 * (kSigma : ℚ) + 0.5⌋.toNat

/-- `kDiffCutoff`, the clip of `DiffPrecompute`. -/
def kDiffCutoff : F := 0.11883287948847132

/-- **`AdaptiveQuantizationMap`**: `DiffPrecompute` of the opsin image with `kDiffCutoff`, checked
to be of whole blocks, smoothed and sampled once per block, then `PerBlockModulations` with
`scale`; `none` when a `JXL_ASSERT` fails. `lanes` and `garbage` are those of `DiffPrecompute`. -/
def adaptiveQuantizationMap (fns : ModulationFns F) (filters : FilterFns F) (lanes : ℕ+)
    (garbage : ℕ → ℕ → FloatVal F) (opsin : Image3 F) (intensityAcX intensityAcY : Plane F)
    (frameDim : FrameDimensions) (scale : F) : Option (Plane (FloatVal F)) :=
  let kernel := filters.gaussianKernel kRadius kSigma
  let out := diffPrecompute opsin frameDim.xsize frameDim.ysize kDiffCutoff lanes garbage
  if out.xsize % kBlockDim = 0 ∧ out.ysize % kBlockDim = 0 then
    perBlockModulations fns intensityAcX intensityAcY scale
      (filters.convolveAndSample out kernel kBlockDim)
  else none

/-- **`InitialQuantField`**: the map of the opsin image with the AC intensity estimates of its X
and Y planes and the scale `kAcQuant / butteraugli_target · rescale`. -/
def initialQuantField (fns : ModulationFns F) (filters : FilterFns F) (lanes : ℕ+)
    (garbage : ℕ → ℕ → FloatVal F) (butteraugliTarget : F) (opsin : Image3 F)
    (frameDim : FrameDimensions) (rescale : F) : Option (Plane (FloatVal F)) :=
  let quantAc := kAcQuant / butteraugliTarget
  let intensityAcX := intensityAcEstimate filters (opsin.channel 0) frameDim
  let intensityAcY := intensityAcEstimate filters (opsin.channel 1) frameDim
  adaptiveQuantizationMap fns filters lanes garbage opsin intensityAcX intensityAcY frameDim
    (quantAc * rescale)

section Estimate

variable (filters : FilterFns F) (opsinY : Plane F) (frameDim : FrameDimensions)

/-- Each sample of the padded rect is the opsin sample minus its smoothing. -/
theorem intensityAcEstimate_row {x y : ℕ} (left : x < frameDim.xsizePadded)
    (below : y < frameDim.ysizePadded) :
    (intensityAcEstimate filters opsinY frameDim).row y x = opsinY.row y x -
      (filters.symmetric3 opsinY frameDim.xsizePadded frameDim.ysizePadded
        weightsSymmetric3GaussianDC).row y x := by
  rw [intensityAcEstimate, Plane.forEachCell, Plane.forEachCellIn_set_row,
    if_pos ⟨Nat.zero_le x, left, Nat.zero_le y, below⟩]

/-- The estimate has the size of the padded frame. -/
theorem intensityAcEstimate_size (sized : filters.Sized) :
    (intensityAcEstimate filters opsinY frameDim).xsize = frameDim.xsizePadded ∧
      (intensityAcEstimate filters opsinY frameDim).ysize = frameDim.ysizePadded :=
  Plane.forEachCell_induction
    (fun s : Plane F => s.xsize = frameDim.xsizePadded ∧ s.ysize = frameDim.ysizePadded)
    (fun _ _ _ _ _ same => same) (sized.symmetric3 _ _ _ _)

end Estimate

section Map

variable (fns : ModulationFns F) (filters : FilterFns F) (lanes : ℕ+) (garbage : ℕ → ℕ → FloatVal F)
  (opsin : Image3 F) (frameDim : FrameDimensions)

theorem roundUpToBlockDim_mod (size : ℕ) : roundUpToBlockDim size % kBlockDim = 0 :=
  Nat.mul_mod_left _ _

theorem roundUpToBlockDim_div (size : ℕ) :
    roundUpToBlockDim size / kBlockDim = divCeil size kBlockDim :=
  Nat.mul_div_cancel _ (by decide)

/-- **The `JXL_ASSERT` of `AdaptiveQuantizationMap` always holds**: `DiffPrecompute` pads its map
to whole blocks, for every image, frame and vector width. -/
theorem adaptiveQuantizationMap_eq (intensityAcX intensityAcY : Plane F) (scale : F) :
    adaptiveQuantizationMap fns filters lanes garbage opsin intensityAcX intensityAcY frameDim
        scale =
      perBlockModulations fns intensityAcX intensityAcY scale
        (filters.convolveAndSample
          (diffPrecompute opsin frameDim.xsize frameDim.ysize kDiffCutoff lanes garbage)
          (filters.gaussianKernel kRadius kSigma) kBlockDim) := by
  have size := diffPrecompute_size opsin frameDim.xsize frameDim.ysize (kDiffCutoff : F) lanes
    garbage
  rw [adaptiveQuantizationMap, if_pos ⟨size.1 ▸ roundUpToBlockDim_mod _,
    size.2 ▸ roundUpToBlockDim_mod _⟩]

variable (sized : filters.Sized)
include sized

/-- The smoothed map has one sample per block of the frame. -/
theorem convolveAndSample_diffPrecompute_size :
    (filters.convolveAndSample
        (diffPrecompute opsin frameDim.xsize frameDim.ysize kDiffCutoff lanes garbage)
        (filters.gaussianKernel kRadius kSigma) kBlockDim).xsize =
        divCeil frameDim.xsize kBlockDim ∧
      (filters.convolveAndSample
        (diffPrecompute opsin frameDim.xsize frameDim.ysize kDiffCutoff lanes garbage)
        (filters.gaussianKernel kRadius kSigma) kBlockDim).ysize =
        divCeil frameDim.ysize kBlockDim := by
  have size := diffPrecompute_size opsin frameDim.xsize frameDim.ysize (kDiffCutoff : F) lanes
    garbage
  have sampled := sized.convolveAndSample _ (filters.gaussianKernel kRadius kSigma) kBlockDim
    (size.1 ▸ roundUpToBlockDim_mod _) (size.2 ▸ roundUpToBlockDim_mod _)
  rw [sampled.1, sampled.2, size.1, size.2, roundUpToBlockDim_div, roundUpToBlockDim_div]
  exact ⟨rfl, rfl⟩

/-- The sizes `PerBlockModulations` checks hold exactly when the padded frame has the frame's
blocks each way. -/
theorem modulationSizes_iff :
    let intensityAcX := intensityAcEstimate filters (opsin.channel 0) frameDim
    let intensityAcY := intensityAcEstimate filters (opsin.channel 1) frameDim
    let out := filters.convolveAndSample
      (diffPrecompute opsin frameDim.xsize frameDim.ysize kDiffCutoff lanes garbage)
      (filters.gaussianKernel kRadius kSigma) kBlockDim
    (divCeil intensityAcX.xsize kBlockDim = out.xsize ∧
        divCeil intensityAcX.ysize kBlockDim = out.ysize ∧
        divCeil intensityAcY.xsize kBlockDim = out.xsize ∧
        divCeil intensityAcY.ysize kBlockDim = out.ysize) ↔
      divCeil frameDim.xsizePadded kBlockDim = divCeil frameDim.xsize kBlockDim ∧
        divCeil frameDim.ysizePadded kBlockDim = divCeil frameDim.ysize kBlockDim := by
  have estimateX := intensityAcEstimate_size filters (opsin.channel 0) frameDim sized
  have estimateY := intensityAcEstimate_size filters (opsin.channel 1) frameDim sized
  have sampled := convolveAndSample_diffPrecompute_size filters lanes garbage opsin frameDim sized
  dsimp only
  rw [estimateX.1, estimateX.2, estimateY.1, estimateY.2, sampled.1, sampled.2]
  exact ⟨fun sizes => ⟨sizes.1, sizes.2.1⟩, fun blocks => ⟨blocks.1, blocks.2, blocks.1, blocks.2⟩⟩

end Map

end JxlEncoder
