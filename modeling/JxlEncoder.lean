import JxlEncoder.Image.Plane
import JxlEncoder.Image.AcStrategy
import JxlEncoder.Image.FloatVal
import JxlEncoder.AdaptiveQuantization.AdjustQuantField
import JxlEncoder.AdaptiveQuantization.DistToPeakMap
import JxlEncoder.AdaptiveQuantization.TileDistMap
import JxlEncoder.AdaptiveQuantization.Search
import JxlEncoder.AdaptiveQuantization.Modulation
import JxlEncoder.AdaptiveQuantization.DiffPrecompute
import JxlEncoder.AdaptiveQuantization.QuantMap
import JxlEncoder.AdaptiveQuantization.FindBestQuantization
import JxlEncoder.AdaptiveQuantization.MaxError
import JxlEncoder.AdaptiveQuantization.Hq
import JxlEncoder.AdaptiveQuantization.HqTermination
import JxlEncoder.AdaptiveQuantization.FindBestQuantizer
import JxlEncoder.EntropyCoder.BitIO
import JxlEncoder.EntropyCoder.BlockCtxMap
import JxlEncoder.EntropyCoder.NumNonZero
import JxlEncoder.EntropyCoder.Tokenize
import JxlEncoder.EntropyCoder.TokenizeCoefficients
import JxlEncoder.EntropyCoder.ReadCoefficients
