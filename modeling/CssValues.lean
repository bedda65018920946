import CssValues.Declaration.Block
import CssValues.Proofs.CssText.Faithful
import CssValues.Proofs.Dimension.LengthRun
import CssValues.Proofs.Dimension.ResolutionRun
import CssValues.Proofs.MathExpr.Factories
import CssValues.Proofs.Ratio.ReadBack
import CssValues.Proofs.Structured.RoundTrip
import CssValues.Ratio.Simplified
import CssValues.Proofs.Binary64.RelativeError
import CssValues.Proofs.Dimension.ConversionChain
import CssValues.Proofs.Declaration.BlockRun
import CssValues.Proofs.Structured.Validation
import CssValues.Proofs.Declaration.PlainText
import CssValues.Proofs.Declaration.ReadBack
import CssValues.Proofs.Ratio.DecimalReduction
import CssValues.Proofs.Ratio.RatioRun
import CssValues.Proofs.Binary64.ShortestDigits
import CssValues.Proofs.CssText.ShortestText
import CssValues.Proofs.Ratio.NormalForm
import CssValues.Proofs.Dimension.ConversionOrder
import CssValues.Proofs.Dimension.DocumentedSizes
import CssValues.Proofs.Binary64.Tripling
import CssValues.Proofs.Dimension.PixelAlias
import CssValues.Proofs.MathExpr.NestedCall
import CssValues.Proofs.Dimension.Subtraction
import CssValues.Proofs.Binary64.Comparison
import CssValues.Proofs.Dimension.ConvertedComparison
import CssValues.Proofs.MathExpr.Rereading
import CssValues.Proofs.Ratio.LongDecimals
import CssValues.Proofs.Dimension.NegativeScale
import CssValues.Proofs.Declaration.NonemptyText
import CssValues.Proofs.TotalOrder
import CssValues.Proofs.VocabularyLookup
import CssValues.Proofs.MathExpr.Positions
import CssValues.Proofs.Building
