import FieldRules.CharClass
import FieldRules.Rule.Basic

/-!
Lexemes, the pieces of a rule's text between blanks, and tokens, which are lexemes with their meaning.
Cutting loses nothing: a text is its lexemes' spellings in order, with blanks around them, and a position
is the number of bytes before it. The meaning of a lexeme depends on itself and on whether a comparison
symbol stands right before it, where a bare word is always a value.
-/

namespace FieldRules

open Text

inductive Lexeme where
  | quoted (mark : Char) (body : List Char)
  | symbols (run : List Char)
  | word (run : List Char)
  deriving DecidableEq

namespace Lexeme

def isQuote (c : Char) : Bool :=
  c == '\'' || c == '"'

def isSymbol (c : Char) : Bool :=
  c == '<' || c == '>' || c == '=' || c == '!'

def isAlphanumeric (c : Char) : Bool :=
  isAlphabetic c || isNumeric c

def isWordChar (c : Char) : Bool :=
  isAlphanumeric c || ['_', '.', '-', '+', '@', ':', '/'].contains c

def spelling : Lexeme → List Char
  | quoted mark body => mark :: (body ++ [mark])
  | symbols run => run
  | word run => run

def quotedBody? (mark : Char) : List Char → Option (List Char × List Char)
  | [] => none
  | '\\' :: c :: rest => (quotedBody? mark rest).map fun (body, after) => ('\\' :: c :: body, after)
  | c :: rest =>
      if c = mark then some ([], rest)
      else (quotedBody? mark rest).map fun (body, after) => (c :: body, after)

/-- What a quoted body stands for: `\n` and `\t` are a line feed and a tab, an escaped backslash or
quote is itself, and any other escape keeps its backslash. -/
def unescape : List Char → List Char
  | '\\' :: c :: rest =>
      if c = 'n' then '\n' :: unescape rest
      else if c = 't' then '\t' :: unescape rest
      else if c = '\\' ∨ isQuote c then c :: unescape rest
      else '\\' :: c :: unescape rest
  | c :: rest => c :: unescape rest
  | [] => []

end Lexeme

inductive LexFault where
  | unrecognizedCharacter (c : Char)
  | unterminatedText
  deriving DecidableEq

structure LexError where
  fault : LexFault
  position : Nat
  deriving DecidableEq

namespace Lexeme

def first (c : Char) (rest : List Char) : Except LexFault (Lexeme × List Char) :=
  if isQuote c then
    match quotedBody? c rest with
    | some (body, after) => .ok (quoted c body, after)
    | none => .error .unterminatedText
  else if isSymbol c then
    .ok (symbols (c :: rest.takeWhile isSymbol), rest.dropWhile isSymbol)
  else if isWordChar c then
    .ok (word (c :: rest.takeWhile isWordChar), rest.dropWhile isWordChar)
  else .error (.unrecognizedCharacter c)

theorem length_quotedBody? {mark : Char} {text body after : List Char}
    (found : quotedBody? mark text = some (body, after)) : after.length < text.length := by
  fun_induction quotedBody? mark text generalizing body after with
  | case1 => simp at found
  | case2 c rest ih =>
      obtain ⟨⟨innerBody, innerAfter⟩, inner, same⟩ := Option.map_eq_some_iff.mp found
      simp only [Prod.mk.injEq] at same
      have bound := ih inner
      rw [← same.2]
      simp only [List.length_cons]
      omega
  | case3 rest =>
      simp only [Option.some.injEq, Prod.mk.injEq] at found
      rw [← found.2]
      simp
  | case4 c rest notEscape notMark ih =>
      obtain ⟨⟨innerBody, innerAfter⟩, inner, same⟩ := Option.map_eq_some_iff.mp found
      simp only [Prod.mk.injEq] at same
      have bound := ih inner
      rw [← same.2]
      simp only [List.length_cons]
      omega

theorem length_first {c : Char} {rest after : List Char} {lexeme : Lexeme}
    (found : first c rest = .ok (lexeme, after)) : after.length ≤ rest.length := by
  have dropBound (p : Char → Bool) : (rest.dropWhile p).length ≤ rest.length :=
    (List.dropWhile_sublist p).length_le
  unfold first at found
  split at found
  · split at found
    · rename_i body tail closed
      simp only [Except.ok.injEq, Prod.mk.injEq] at found
      have bound := length_quotedBody? closed
      rw [← found.2]
      omega
    · simp at found
  · split at found
    · simp only [Except.ok.injEq, Prod.mk.injEq] at found
      rw [← found.2]
      exact dropBound isSymbol
    · split at found
      · simp only [Except.ok.injEq, Prod.mk.injEq] at found
        rw [← found.2]
        exact dropBound isWordChar
      · simp at found

theorem length_after_first {text rest after : List Char} {c : Char} {lexeme : Lexeme}
    (notBlank : trimStart text = c :: rest) (found : first c rest = .ok (lexeme, after)) :
    after.length < text.length :=
  Nat.lt_of_le_of_lt (length_first found) (length_lt_of_dropWhile notBlank)

end Lexeme

structure PlacedLexeme where
  lexeme : Lexeme
  position : Nat
  deriving DecidableEq

namespace Lexeme

def cutFrom (position : Nat) (text : List Char) : Except LexError (List PlacedLexeme) :=
  let start := position + (String.ofList (text.takeWhile isBlank)).utf8ByteSize
  match notBlank : trimStart text with
  | [] => .ok []
  | c :: rest =>
      match found : first c rest with
      | .error fault => .error ⟨fault, start⟩
      | .ok (lexeme, after) =>
          have := length_after_first notBlank found
          let ending := start + (String.ofList lexeme.spelling).utf8ByteSize
          (cutFrom ending after).map (⟨lexeme, start⟩ :: ·)
termination_by text.length

def cut (text : List Char) : Except LexError (List PlacedLexeme) :=
  cutFrom 0 text

end Lexeme

inductive TokenKind where
  | identifier (name : String)
  | symbols (run : String)
  | connective (connective : Connective)
  | literal (value : Scalar)
  deriving DecidableEq

structure Token where
  kind : TokenKind
  position : Nat
  deriving DecidableEq

def TokenKind.text : TokenKind → String
  | .identifier name => "identifier '" ++ name ++ "'"
  | .symbols run => "operator '" ++ run ++ "'"
  | .connective k => "'" ++ k.keyword ++ "'"
  | .literal value => "literal " ++ value.ruleText

def isIdentifier : List Char → Bool
  | [] => false
  | c :: rest =>
      (isAlphabetic c || c == '_')
        && rest.all fun c => Lexeme.isAlphanumeric c || c == '_' || c == '.'

/-- The number that a bare word writes. Only the spelling in which the number would be written back
counts: `007`, `1e3` and `+5` are not numbers but texts. -/
def numberOfWord? (word : List Char) : Option Scalar :=
  match int64OfText? word with
  | some i => if intText i.toInt = word then some (.int i) else none
  | none =>
      ((Binary64.finiteOfText? word).filter fun x => x.text .rule = word).map .float

namespace TokenKind

def ofWord (afterSymbols : Bool) (word : List Char) : TokenKind :=
  match Connective.ofKeyword? (String.ofList word) with
  | some k => .connective k
  | none =>
      match numberOfWord? word with
      | some number => .literal number
      | none =>
          if !afterSymbols && isIdentifier word then .identifier (String.ofList word)
          else .literal (.text (String.ofList word))

def ofLexeme (afterSymbols : Bool) : Lexeme → TokenKind
  | .quoted _ body => .literal (.text (String.ofList (Lexeme.unescape body)))
  | .symbols run => .symbols (String.ofList run)
  | .word run => ofWord afterSymbols run

end TokenKind

namespace Lexeme

def isSymbols : Lexeme → Bool
  | symbols _ => true
  | _ => false

end Lexeme

namespace Token

def ofLexemes (afterSymbols : Bool) : List PlacedLexeme → List Token
  | [] => []
  | ⟨lexeme, position⟩ :: rest =>
      ⟨.ofLexeme afterSymbols lexeme, position⟩ :: ofLexemes lexeme.isSymbols rest

def scan (source : String) : Except LexError (List Token) :=
  (Lexeme.cut source.toList).map (ofLexemes false)

end Token

end FieldRules
