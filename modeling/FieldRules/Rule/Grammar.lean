import FieldRules.Limits
import FieldRules.Token

/-!
The grammar of rules over tokens: comparisons joined by "and" and "or", where "and" binds closer and
both associate to the left. A fault is reported where the first token stands that cannot continue the
rule, and a rule too deep at the connective that makes it so. Faults at the end of the text are reported
at `ending`, its size.
-/

namespace FieldRules

inductive Expectation where
  | fieldName
  | comparator
  | value
  | connective
  deriving DecidableEq

def Expectation.text : Expectation → String
  | fieldName => "field name"
  | comparator => "comparison operator"
  | value => "value"
  | connective => "AND or OR"

inductive ParseFault where
  | unexpected (expected : Expectation) (found : Option TokenKind)
  | missingOperand
  | unknownComparator (symbols : String)
  | tooDeep (limit : Nat)
  deriving DecidableEq

structure ParseError where
  fault : ParseFault
  position : Nat
  deriving DecidableEq

/-- Reads something off the head of a token list and leaves a shorter list. -/
structure TokenReader (α : Type) where
  read : List Token → Except ParseError (α × List Token)
  shorter : ∀ {tokens value rest}, read tokens = .ok (value, rest) → rest.length < tokens.length

namespace Grammar

def readField (ending : Nat) : List Token → Except ParseError (String × List Token)
  | [] => .error ⟨.missingOperand, ending⟩
  | ⟨kind, position⟩ :: rest =>
      match kind with
      | .identifier name => .ok (name, rest)
      | .connective _ => .error ⟨.missingOperand, position⟩
      | found => .error ⟨.unexpected .fieldName found, position⟩

def readComparator (ending : Nat) : List Token → Except ParseError ((Comparator × Nat) × List Token)
  | [] => .error ⟨.unexpected .comparator none, ending⟩
  | ⟨kind, position⟩ :: rest =>
      match kind with
      | .symbols run =>
          match Comparator.ofSymbol? run with
          | some comparator => .ok ((comparator, position), rest)
          | none => .error ⟨.unknownComparator run, position⟩
      | found => .error ⟨.unexpected .comparator found, position⟩

def readLiteral (ending : Nat) : List Token → Except ParseError (Scalar × List Token)
  | [] => .error ⟨.missingOperand, ending⟩
  | ⟨kind, position⟩ :: rest =>
      match kind with
      | .literal value => .ok (value, rest)
      | .connective _ => .error ⟨.missingOperand, position⟩
      | found => .error ⟨.unexpected .value found, position⟩

def checkDepth (limits : Limits) (position : Nat) (rule : MeasuredRule) :
    Except ParseError MeasuredRule :=
  if limits.maxDepth < rule.depth then .error ⟨.tooDeep limits.maxDepth, position⟩ else .ok rule

def readComparison (limits : Limits) (ending : Nat) (tokens : List Token) :
    Except ParseError (MeasuredRule × List Token) := do
  let (field, tokens) ← readField ending tokens
  let ((comparator, position), tokens) ← readComparator ending tokens
  let (literal, tokens) ← readLiteral ending tokens
  let rule ← checkDepth limits position (.test ⟨field, comparator, literal⟩)
  return (rule, tokens)

theorem length_readField {ending : Nat} {tokens rest : List Token} {name : String}
    (found : readField ending tokens = .ok (name, rest)) : tokens.length = rest.length + 1 := by
  unfold readField at found
  split at found
  · simp at found
  · split at found <;> simp_all

theorem length_readComparator {ending : Nat} {tokens rest : List Token} {value : Comparator × Nat}
    (found : readComparator ending tokens = .ok (value, rest)) :
    tokens.length = rest.length + 1 := by
  unfold readComparator at found
  split at found
  · simp at found
  · split at found
    · split at found <;> simp_all
    · simp at found

theorem length_readLiteral {ending : Nat} {tokens rest : List Token} {value : Scalar}
    (found : readLiteral ending tokens = .ok (value, rest)) : tokens.length = rest.length + 1 := by
  unfold readLiteral at found
  split at found
  · simp at found
  · split at found <;> simp_all

theorem length_readComparison {limits : Limits} {ending : Nat} {tokens rest : List Token}
    {rule : MeasuredRule} (found : readComparison limits ending tokens = .ok (rule, rest)) :
    tokens.length = rest.length + 3 := by
  unfold readComparison at found
  cases field : readField ending tokens with
  | error e => simp [field, bind, Except.bind] at found
  | ok pair =>
      cases comparator : readComparator ending pair.2 with
      | error e => simp [field, comparator, bind, Except.bind] at found
      | ok pair' =>
          cases literal : readLiteral ending pair'.2 with
          | error e => simp [field, comparator, literal, bind, Except.bind] at found
          | ok pair'' =>
              simp only [field, comparator, literal, bind, Except.bind] at found
              split at found
              · simp at found
              · simp only [pure, Except.pure, Except.ok.injEq, Prod.mk.injEq] at found
                have first := length_readField field
                have second := length_readComparator comparator
                have third := length_readLiteral literal
                rw [first, second, third, found.2]

def comparison (limits : Limits) (ending : Nat) : TokenReader MeasuredRule where
  read := readComparison limits ending
  shorter found := by
    have := length_readComparison found
    omega

def continueChain (limits : Limits) (connective : Connective) (operand : TokenReader MeasuredRule)
    (sofar : MeasuredRule) : List Token → Except ParseError (MeasuredRule × List Token)
  | [] => .ok (sofar, [])
  | ⟨kind, position⟩ :: rest =>
      if kind = .connective connective then
        match found : operand.read rest with
        | .error e => .error e
        | .ok (right, after) =>
            match checkDepth limits position (.join connective sofar right) with
            | .error e => .error e
            | .ok joined =>
                have := operand.shorter found
                continueChain limits connective operand joined after
      else .ok (sofar, ⟨kind, position⟩ :: rest)
termination_by tokens => tokens.length

theorem length_continueChain {limits : Limits} {connective : Connective}
    {operand : TokenReader MeasuredRule} {sofar rule : MeasuredRule} {tokens rest : List Token}
    (found : continueChain limits connective operand sofar tokens = .ok (rule, rest)) :
    rest.length ≤ tokens.length := by
  fun_induction continueChain limits connective operand sofar tokens with
  | case1 => simp_all
  | case2 => simp at found
  | case3 => simp at found
  | case4 sofar position rest right after read joined _ shorter ih =>
      have bound := ih found
      simp only [List.length_cons]
      omega
  | case5 => simp_all

def chain (limits : Limits) (connective : Connective) (operand : TokenReader MeasuredRule) :
    TokenReader MeasuredRule where
  read tokens := do
    let (first, rest) ← operand.read tokens
    continueChain limits connective operand first rest
  shorter {tokens value rest} found := by
    cases first : operand.read tokens with
    | error e => simp [first, bind, Except.bind] at found
    | ok pair =>
        simp only [first, bind, Except.bind] at found
        have firstBound : pair.2.length < tokens.length := operand.shorter first
        have restBound := length_continueChain found
        omega

def conjunction (limits : Limits) (ending : Nat) : TokenReader MeasuredRule :=
  chain limits .and (comparison limits ending)

def disjunction (limits : Limits) (ending : Nat) : TokenReader MeasuredRule :=
  chain limits .or (conjunction limits ending)

end Grammar

def Rule.ofTokens (limits : Limits) (ending : Nat) (tokens : List Token) :
    Except ParseError Rule := do
  let (rule, rest) ← (Grammar.disjunction limits ending).read tokens
  match rest with
  | [] => return rule.rule
  | ⟨kind, position⟩ :: _ => throw ⟨.unexpected .connective kind, position⟩

inductive SyntaxError where
  | lexical (error : LexError)
  | grammatical (error : ParseError)
  deriving DecidableEq

def LexFault.message : LexFault → String
  | unrecognizedCharacter c => s!"unrecognized character '{c}'"
  | unterminatedText => "unterminated string literal"

def ParseFault.message : ParseFault → String
  | unexpected expected (some found) => s!"expected {expected.text}, found {found.text}"
  | unexpected expected none => s!"expected {expected.text}, found end of input"
  | missingOperand => "missing operand"
  | unknownComparator symbols => s!"unknown operator '{symbols}'"
  | tooDeep limit => s!"rule nesting exceeds the maximum depth of {limit}"

namespace SyntaxError

def position : SyntaxError → Nat
  | lexical error => error.position
  | grammatical error => error.position

def message : SyntaxError → String
  | lexical error => s!"lex error at position {error.position}: {error.fault.message}"
  | grammatical error => s!"parse error at position {error.position}: {error.fault.message}"

end SyntaxError

def Rule.parse (limits : Limits) (source : String) : Except SyntaxError Rule := do
  let tokens ← (Token.scan source).mapError .lexical
  (Rule.ofTokens limits source.utf8ByteSize tokens).mapError .grammatical

end FieldRules
