import FieldRules.Binary64
import FieldRules.Blake3
import FieldRules.Blob
import FieldRules.CharClass
import FieldRules.Context
import FieldRules.Exchange
import FieldRules.Json.Basic
import FieldRules.Json.Reading
import FieldRules.Json.Token
import FieldRules.Limits
import FieldRules.Numeral
import FieldRules.Rule.Basic
import FieldRules.Rule.Combination
import FieldRules.Rule.Grammar
import FieldRules.Scalar
import FieldRules.Session
import FieldRules.Token
import FieldRules.Proofs.Binary64.Decimal
import FieldRules.Proofs.Binary64.Rounding
import FieldRules.Proofs.Binary64.Text
import FieldRules.Proofs.Blob.Acceptance
import FieldRules.Proofs.Blob.Budget
import FieldRules.Proofs.Blob.Chain
import FieldRules.Proofs.Blob.Damage
import FieldRules.Proofs.Blob.Layout
import FieldRules.Proofs.Blob.Normal
import FieldRules.Proofs.Blob.RoundTrip
import FieldRules.Proofs.Context
import FieldRules.Proofs.Except
import FieldRules.Proofs.Exchange.Agreement
import FieldRules.Proofs.Exchange.Height
import FieldRules.Proofs.Exchange.Reading
import FieldRules.Proofs.Exchange.RoundTrip
import FieldRules.Proofs.Exchange.Shape
import FieldRules.Proofs.Fields
import FieldRules.Proofs.Json.FloatText
import FieldRules.Proofs.Json.Reading
import FieldRules.Proofs.Json.RoundTrip
import FieldRules.Proofs.Json.Scalar
import FieldRules.Proofs.Json.Token
import FieldRules.Proofs.Json.Written
import FieldRules.Proofs.Lexeme.Cut
import FieldRules.Proofs.Lexeme.Cutting
import FieldRules.Proofs.Limits
import FieldRules.Proofs.Numeral
import FieldRules.Proofs.Rule.Combination
import FieldRules.Proofs.Rule.Duality
import FieldRules.Proofs.Rule.Evaluation
import FieldRules.Proofs.Rule.FieldNames
import FieldRules.Proofs.Rule.Grammar
import FieldRules.Proofs.Rule.Increment
import FieldRules.Proofs.Rule.Joining
import FieldRules.Proofs.Rule.Phrase
import FieldRules.Proofs.Rule.Place
import FieldRules.Proofs.Rule.Quoting
import FieldRules.Proofs.Rule.Refusal
import FieldRules.Proofs.Rule.RoundTrip
import FieldRules.Proofs.Rule.Text
import FieldRules.Proofs.Rule.Unambiguous
import FieldRules.Proofs.Rule.Unfinished
import FieldRules.Proofs.Session
import FieldRules.Proofs.Token.Comparison
import FieldRules.Proofs.Token.Scan
import FieldRules.Proofs.Token.Stop
