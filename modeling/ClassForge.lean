import ClassForge.Proofs.Build.FaithfulResolution
import ClassForge.Proofs.Build.SynthesizedKeys
import ClassForge.Proofs.Code.BlockGrammar
import ClassForge.Proofs.Code.TypedStores
import ClassForge.Proofs.Machine.PinnedArrays
import ClassForge.Proofs.Machine.StackSafety
import ClassForge.Proofs.Machine.UnsharedInstances
import ClassForge.Proofs.Number.FloatConversions
import ClassForge.Proofs.Number.NarrowValues
import ClassForge.Proofs.Simulation.CompiledMethods
import ClassForge.Proofs.Try.TryExpressions
import ClassForge.Proofs.Typing.OverloadChoice
import ClassForge.Proofs.Usage.FreeOccurrences
import ClassForge.Proofs.Usage.UsageTables
