import QueryPipeline.Main
import QueryPipeline.Proofs.Composition
import QueryPipeline.Proofs.Projection
import QueryPipeline.Proofs.ClauseBody
import QueryPipeline.Proofs.Acceptance
import QueryPipeline.Proofs.Tokens
import QueryPipeline.Proofs.ChoicesKept
import QueryPipeline.Proofs.Writing
import QueryPipeline.Proofs.JoinChains
import QueryPipeline.Proofs.StraySeparators
import QueryPipeline.Proofs.OperatorsUsed
import QueryPipeline.Proofs.FaithfulJson
import QueryPipeline.Proofs.CollectionUsed
import QueryPipeline.Proofs.DecimalValues
import QueryPipeline.Proofs.NumbersAsTokens
import QueryPipeline.Proofs.CommandLines
import QueryPipeline.Proofs.EffectiveSettings
import QueryPipeline.Proofs.SeventeenDigits
import QueryPipeline.Proofs.OverflowingNumerals
import QueryPipeline.Proofs.SpelledOut
import QueryPipeline.Proofs.OneOf
import QueryPipeline.Proofs.AddedInstead
import QueryPipeline.Proofs.IndentedJson
import QueryPipeline.Proofs.StageLines
import QueryPipeline.Proofs.SortedFields
import QueryPipeline.Proofs.Registrations
import QueryPipeline.Proofs.InsertionOrder
