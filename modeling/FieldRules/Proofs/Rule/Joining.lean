import FieldRules.Proofs.Limits
import FieldRules.Proofs.Rule.Combination
import FieldRules.Proofs.Token.Scan

/-!
Texts of rules in a row with a connective between any two. Such a text has the tokens of the rules with
the connective between them. So it is read as a regrouping of what combining the rules gives, where "or"
is the connective, or where it is "and" and no rule holds an "or". Regrouping changes neither the
comparisons nor what they evaluate to, errors included.
-/

namespace FieldRules

open Lexeme Text

namespace Rule

theorem evaluate_congr {first second : Rule} (comparisons : first.comparisons = second.comparisons)
    (formula : ∀ truth, first.formula truth = second.formula truth) (context : Context) :
    first.evaluate context = second.evaluate context := by
  cases evaluated : second.evaluate context with
  | ok value =>
      rw [evaluate_eq_ok_iff, ← comparisons, ← formula] at evaluated
      exact evaluate_eq_ok_iff.mpr evaluated
  | error error =>
      rw [evaluate_eq_error_iff, ← comparisons] at evaluated
      exact evaluate_eq_error_iff.mpr evaluated

theorem formula_foldl_join (truth : Comparison → Bool) (connective : Connective) (first : Rule)
    (rest : List Rule) :
    (rest.foldl (join connective) first).formula truth =
      connective.applyAll ((first :: rest).map (formula truth)) := by
  induction rest generalizing first with
  | nil => exact (connective.applyAll_singleton _).symm
  | cons next rest ih =>
      rw [List.foldl_cons, ih, List.map_cons, formula_join, connective.applyAll_apply]
      rfl

end Rule

theorem Connective.applyAll_flatMap {α : Type} (connective : Connective) (values : α → List Bool)
    (parts : List α) :
    connective.applyAll (parts.flatMap values) =
      connective.applyAll (parts.map fun part => connective.applyAll (values part)) := by
  cases connective with
  | and => simp only [applyAll, List.all_flatMap, List.all_map, Function.comp_def, id]
  | or => simp only [applyAll, List.any_flatMap, List.any_map, Function.comp_def, id]

namespace Several

variable {α : Type}

def toList (several : Several α) : List α :=
  several.first :: several.rest

def flatten (parts : Several (Several α)) : Several α :=
  ⟨parts.first.first, parts.first.rest ++ parts.rest.flatMap toList⟩

theorem toList_flatten (parts : Several (Several α)) :
    parts.flatten.toList = parts.toList.flatMap toList := by
  simp [flatten, toList]

theorem spelled_flatten (connective : Connective) (kinds : α → List TokenKind)
    (parts : Several (Several α)) :
    parts.flatten.spelled connective kinds =
      parts.spelled connective fun part => part.spelled connective kinds := by
  have inner (part : Several α) :
      part.toList.flatMap (fun next => .connective connective :: kinds next) =
        .connective connective :: part.spelled connective kinds := by
    simp [toList, spelled]
  simp [flatten, spelled, List.flatMap_assoc, inner]

variable (connective : Connective) (rule : α → Rule)

theorem joined_eq_foldl (several : Several α) :
    several.joined connective rule =
      (several.rest.map rule).foldl (.join connective) (rule several.first) := by
  rw [joined, List.foldl_map]

theorem comparisons_joined (several : Several α) :
    (several.joined connective rule).comparisons =
      several.toList.flatMap fun thing => (rule thing).comparisons := by
  rw [joined_eq_foldl, Rule.comparisons_foldl_join, ← List.map_cons, List.flatMap_map]
  rfl

theorem formula_joined (several : Several α) (truth : Comparison → Bool) :
    (several.joined connective rule).formula truth =
      connective.applyAll (several.toList.map fun thing => (rule thing).formula truth) := by
  rw [joined_eq_foldl, Rule.formula_foldl_join, ← List.map_cons, List.map_map]
  rfl

theorem comparisons_joined_flatten (parts : Several (Several α)) :
    (parts.flatten.joined connective rule).comparisons =
      (parts.joined connective fun part => part.joined connective rule).comparisons := by
  simp only [comparisons_joined, toList_flatten, List.flatMap_assoc]

theorem evaluate_joined_flatten (parts : Several (Several α)) (context : Context) :
    (parts.flatten.joined connective rule).evaluate context =
      (parts.joined connective fun part => part.joined connective rule).evaluate context := by
  refine Rule.evaluate_congr (parts.comparisons_joined_flatten connective rule) ?_ context
  intro truth
  simp only [formula_joined, toList_flatten, List.map_flatMap, connective.applyAll_flatMap]

end Several

def TokenKind.EndInLiteral (kinds : List TokenKind) : Prop :=
  ∃ earlier value, kinds = earlier ++ [.literal value]

namespace Token

theorem endsInSymbols_of_endInLiteral {tokens : List Token}
    (ends : TokenKind.EndInLiteral (tokens.map kind)) : endsInSymbols tokens = false := by
  obtain ⟨earlier, value, same⟩ := ends
  obtain ⟨before, last, rfl, -, lastKind⟩ := List.map_eq_append_iff.mp same
  obtain ⟨token, rfl, tokenKind⟩ := List.map_eq_singleton_iff.mp lastKind
  simp [endsInSymbols, tokenKind, TokenKind.isSymbols]

theorem scan_keyword (connective : Connective) :
    scan connective.keyword = .ok [⟨.connective connective, 0⟩] := by
  have form : (Lexeme.word connective.keyword.toList).HasForm := Rule.wellFormed_keyword connective
  have cutting := @Cutting.next [] [] _ [] rfl form nofun (.done rfl)
  rw [List.nil_append, List.append_nil, Lexeme.spelling] at cutting
  rw [scan_of_cutting cutting, ofPieces, SpacedLexeme.place, SpacedLexeme.place, ofLexemes, ofLexemes,
    TokenKind.ofLexeme, TokenKind.ofWord_keyword]
  rfl

theorem exists_scan_joined {first second : String} {earlier later : List Token}
    (firstScanned : scan first = .ok earlier) (secondScanned : scan second = .ok later)
    (ends : TokenKind.EndInLiteral (earlier.map kind)) (connective : Connective) :
    ∃ tokens, scan (first ++ (" " ++ connective.keyword ++ " ") ++ second) = .ok tokens ∧
      tokens.map kind = earlier.map kind ++ .connective connective :: later.map kind := by
  have withKeyword := scan_append firstScanned (scan_keyword connective)
    (endsInSymbols_of_endInLiteral ends)
  let keyword := shift (first.utf8ByteSize + 1) ⟨.connective connective, 0⟩
  have apart : endsInSymbols (earlier ++ [keyword]) = false := by
    simp [endsInSymbols, keyword, shift, TokenKind.isSymbols]
  have whole := scan_append withKeyword secondScanned apart
  simp only [String.append_assoc] at whole ⊢
  refine ⟨_, whole, ?_⟩
  simp [Function.comp_def, shift]

end Token

def Connective.joinTexts (connective : Connective) (sources : List String) : String :=
  (" " ++ connective.keyword ++ " ").intercalate sources

/-- The first rule is what combining the texts gives and the second what the joined text is read as,
each under the limits that it is within, and they only differ in shape. -/
structure Connective.Agree (connective : Connective) (sources : List String)
    (combined parsed : Rule) : Prop where
  combines : ∀ limits : Limits, combined.depth ≤ limits.maxDepth →
    Rule.combine limits connective (sources.map .text) = .ok combined
  parses : ∀ limits : Limits, parsed.depth ≤ limits.maxDepth →
    Rule.parse limits (connective.joinTexts sources) = .ok parsed
  comparisons : combined.comparisons = parsed.comparisons
  evaluates : ∀ context, combined.evaluate context = parsed.evaluate context

namespace Several

variable {α : Type} {connective : Connective} {kinds : α → List TokenKind}

def Spell (connective : Connective) (kinds : α → List TokenKind) (several : Several α)
    (source : String) : Prop :=
  ∃ tokens, Token.scan source = .ok tokens ∧
    tokens.map Token.kind = several.spelled connective kinds

theorem spelled_cons (first next : α) (rest : List α) :
    spelled connective kinds ⟨first, next :: rest⟩ =
      kinds first ++ .connective connective :: spelled connective kinds ⟨next, rest⟩ := by
  simp [spelled]

theorem endInLiteral_spelled (ends : ∀ thing, TokenKind.EndInLiteral (kinds thing))
    (several : Several α) : TokenKind.EndInLiteral (several.spelled connective kinds) := by
  obtain ⟨first, rest⟩ := several
  induction rest generalizing first with
  | nil => simpa [spelled] using ends first
  | cons next rest ih =>
      obtain ⟨earlier, value, same⟩ := ih next
      refine ⟨kinds first ++ .connective connective :: earlier, value, ?_⟩
      rw [spelled_cons, same, List.append_assoc, List.cons_append]

theorem exists_parts (ends : ∀ thing, TokenKind.EndInLiteral (kinds thing)) (first : String)
    (rest : List String)
    (each : ∀ source ∈ first :: rest, ∃ part, Spell connective kinds part source) :
    ∃ parts : Several (Several α),
      List.Forall₂ (Spell connective kinds) parts.toList (first :: rest) ∧
      parts.flatten.Spell connective kinds (connective.joinTexts (first :: rest)) := by
  simp only [Spell, spelled_flatten]
  induction rest generalizing first with
  | nil =>
      obtain ⟨part, tokens, scanned, tokenKinds⟩ := each first List.mem_cons_self
      refine ⟨⟨part, []⟩, .cons ⟨tokens, scanned, tokenKinds⟩ .nil, tokens, ?_, ?_⟩
      · rw [Connective.joinTexts, String.intercalate_singleton, scanned]
      · simpa [spelled] using tokenKinds
  | cons next rest ih =>
      obtain ⟨part, tokens, scanned, tokenKinds⟩ := each first List.mem_cons_self
      obtain ⟨⟨second, others⟩, spelled, laterTokens, laterScanned, laterKinds⟩ :=
        ih next fun source member => each source (List.mem_cons_of_mem first member)
      -- The part ends in a literal, so the keyword behind it does not stand where a value does.
      obtain ⟨allTokens, allScanned, allKinds⟩ := Token.exists_scan_joined scanned laterScanned
        (tokenKinds ▸ endInLiteral_spelled ends part) connective
      refine ⟨⟨part, second :: others⟩, .cons ⟨tokens, scanned, tokenKinds⟩ spelled, allTokens,
        ?_, ?_⟩
      · rw [Connective.joinTexts, String.intercalate_cons_cons]
        exact allScanned
      · rw [allKinds, tokenKinds, laterKinds, spelled_cons]

variable {rule : α → Rule}

theorem exists_agree (ends : ∀ thing, TokenKind.EndInLiteral (kinds thing))
    (reads : ∀ {limits : Limits} {source : String} {several : Several α},
      several.Spell connective kinds source →
      (several.joined connective rule).depth ≤ limits.maxDepth →
      Rule.parse limits source = .ok (several.joined connective rule))
    {sources : List String} (nonempty : sources ≠ [])
    (each : ∀ source ∈ sources, ∃ part, Spell connective kinds part source) :
    ∃ combined parsed, connective.Agree sources combined parsed := by
  obtain ⟨first, rest, rfl⟩ := List.exists_cons_of_ne_nil nonempty
  obtain ⟨parts, spelledEach, spelledAll⟩ := exists_parts ends first rest each
  refine ⟨parts.joined connective (joined connective rule), parts.flatten.joined connective rule,
    ?_, fun limits => reads spelledAll, (parts.comparisons_joined_flatten connective rule).symm,
    fun context => (parts.evaluate_joined_flatten connective rule context).symm⟩
  intro limits fits
  rw [joined_eq_foldl] at fits ⊢
  have within : ∀ part ∈ parts.toList, (part.joined connective rule).depth ≤ limits.maxDepth := by
    intro part member
    refine Nat.le_trans (Rule.depth_le_foldl_of_mem ?_) fits
    rw [← List.map_cons]
    exact List.mem_map_of_mem member
  refine Rule.combine_eq_ok_iff.mpr ⟨_, _, ?_, rfl, fits⟩
  rw [← List.map_cons, List.forall₂_map_left_iff, List.forall₂_map_right_iff]
  refine (((List.forall₂_and_left _ _).mpr ⟨within, spelledEach⟩).imp ?_).flip
  intro part source partSpelled
  exact reads partSpelled.2 partSpelled.1

end Several

namespace Rule

theorem parse_eq_ok_iff_spell {limits : Limits} {source : String} {rule : Rule} :
    parse limits source = .ok rule ↔
      ∃ groups, Several.Spell .or (Several.spelled .and Comparison.kinds) groups source ∧
        rule = groups.joined .or (Several.joined .and test) ∧ rule.depth ≤ limits.maxDepth := by
  simp only [parse_eq_ok_iff, ofTokens_eq_ok_iff_groups, Several.Spell]
  constructor
  · rintro ⟨tokens, scanned, groups, spelled, same, fits⟩
    exact ⟨groups, ⟨tokens, scanned, spelled⟩, same, fits⟩
  · rintro ⟨groups, ⟨tokens, scanned, spelled⟩, same, fits⟩
    exact ⟨tokens, scanned, groups, spelled, same, fits⟩

theorem parse_of_spell_or {limits : Limits} {source : String} {groups : Several (Several Comparison)}
    (spelled : groups.Spell .or (Several.spelled .and Comparison.kinds) source)
    (fits : (groups.joined .or (Several.joined .and test)).depth ≤ limits.maxDepth) :
    parse limits source = .ok (groups.joined .or (Several.joined .and test)) :=
  parse_eq_ok_iff_spell.mpr ⟨groups, spelled, rfl, fits⟩

theorem parse_of_spell_and {limits : Limits} {source : String} {group : Several Comparison}
    (spelled : group.Spell .and Comparison.kinds source)
    (fits : (group.joined .and test).depth ≤ limits.maxDepth) :
    parse limits source = .ok (group.joined .and test) := by
  obtain ⟨tokens, scanned, tokenKinds⟩ := spelled
  -- Comparisons with "and" between them are groups of which there is only one.
  refine parse_eq_ok_iff_spell.mpr ⟨⟨group, []⟩, ⟨tokens, scanned, ?_⟩, rfl, fits⟩
  simpa [Several.spelled] using tokenKinds

theorem spell_and_of_parse {limits : Limits} {source : String} {rule : Rule}
    (read : parse limits source = .ok rule)
    (noOr : ∀ tokens, Token.scan source = .ok tokens →
      ∀ token ∈ tokens, token.kind ≠ .connective .or) :
    ∃ group, Several.Spell .and Comparison.kinds group source := by
  obtain ⟨⟨group, others⟩, ⟨tokens, scanned, tokenKinds⟩, -, -⟩ := parse_eq_ok_iff_spell.mp read
  cases others with
  | nil =>
      refine ⟨group, tokens, scanned, ?_⟩
      simpa [Several.spelled] using tokenKinds
  | cons next others =>
      have member : .connective .or ∈ tokens.map Token.kind := by
        rw [tokenKinds, Several.spelled_cons]
        simp
      obtain ⟨token, listed, isOr⟩ := List.mem_map.mp member
      exact absurd isOr (noOr tokens scanned token listed)

end Rule

theorem Comparison.endInLiteral_kinds (comparison : Comparison) :
    TokenKind.EndInLiteral comparison.kinds :=
  ⟨[.identifier comparison.field, .symbols comparison.comparator.symbol], comparison.literal, rfl⟩

namespace Rule

theorem size_le_of_parse {limits : Limits} {source : String} {rule : Rule}
    (read : parse limits source = .ok rule) : rule.size ≤ source.utf8ByteSize := by
  obtain ⟨tokens, scanned, spelled, -⟩ := parse_eq_ok_iff_kinds.mp read
  obtain ⟨pieces, cutting, rfl⟩ := Token.exists_cutting_of_scan scanned
  have bound := rule.size_le_length_kinds
  rw [← spelled, List.length_map, Token.length_ofPieces] at bound
  have pieceBound := cutting.length_le
  rw [String.utf8Len_toList] at pieceBound
  omega

theorem exists_agree (connective : Connective) (sources : List String) (nonempty : sources ≠ [])
    (accepted : ∀ source ∈ sources, ∃ limits rule, parse limits source = .ok rule)
    (noOr : connective = .and → ∀ source ∈ sources, ∀ tokens, Token.scan source = .ok tokens →
      ∀ token ∈ tokens, token.kind ≠ .connective .or) :
    ∃ combined parsed, connective.Agree sources combined parsed := by
  cases connective with
  | or =>
      refine Several.exists_agree (Several.endInLiteral_spelled Comparison.endInLiteral_kinds)
        parse_of_spell_or nonempty ?_
      intro source member
      obtain ⟨limits, rule, read⟩ := accepted source member
      obtain ⟨groups, spelled, -⟩ := parse_eq_ok_iff_spell.mp read
      exact ⟨groups, spelled⟩
  | and =>
      refine Several.exists_agree Comparison.endInLiteral_kinds parse_of_spell_and nonempty ?_
      intro source member
      obtain ⟨limits, rule, read⟩ := accepted source member
      exact spell_and_of_parse read (noOr rfl source member)

/-- Combining the texts of rules agrees with joining them, under "or" and, if no rule holds an "or",
under "and". Both succeed under limits that the length of the joined text is within, and wherever
both succeed they have the same comparisons and evaluate to the same, errors included. -/
theorem combine_agrees_with_joinTexts (connective : Connective) (sources : List String)
    (nonempty : sources ≠ [])
    (accepted : ∀ source ∈ sources, ∃ limits rule, parse limits source = .ok rule)
    (noOr : connective = .and → ∀ source ∈ sources, ∀ tokens, Token.scan source = .ok tokens →
      ∀ token ∈ tokens, token.kind ≠ .connective .or) :
    (∀ limits : Limits, (connective.joinTexts sources).utf8ByteSize ≤ limits.maxDepth →
      (∃ combined, combine limits connective (sources.map .text) = .ok combined) ∧
      ∃ parsed, parse limits (connective.joinTexts sources) = .ok parsed) ∧
    ∀ limits combined parsed, combine limits connective (sources.map .text) = .ok combined →
      parse limits (connective.joinTexts sources) = .ok parsed →
      combined.comparisons = parsed.comparisons ∧
      ∀ context, combined.evaluate context = parsed.evaluate context := by
  obtain ⟨combined, parsed, agree⟩ := exists_agree connective sources nonempty accepted noOr
  -- Neither rule is deeper than it has comparisons, and the joined text has a byte for each of them.
  have parsedSize : parsed.size ≤ (connective.joinTexts sources).utf8ByteSize :=
    size_le_of_parse (agree.parses ⟨parsed.depth⟩ (Nat.le_refl _))
  have sameSize : combined.size = parsed.size := by
    rw [← length_comparisons, agree.comparisons, length_comparisons]
  constructor
  · intro limits long
    have combinedDepth := combined.depth_le_size
    have parsedDepth := parsed.depth_le_size
    exact ⟨⟨combined, agree.combines limits (by omega)⟩, parsed, agree.parses limits (by omega)⟩
  · intro limits otherCombined otherParsed combines parses
    obtain rfl := (combine_acceptsByDepth connective (sources.map .text)).unique combines
      (agree.combines ⟨combined.depth⟩ (Nat.le_refl _))
    obtain rfl := (parse_acceptsByDepth (connective.joinTexts sources)).unique parses
      (agree.parses ⟨parsed.depth⟩ (Nat.le_refl _))
    exact ⟨agree.comparisons, agree.evaluates⟩

theorem combine_agrees_with_joinTexts_quoted :
    let sources := ["a = 1", "b = 'x OR y' AND c = 3"]
    let joined := "a = 1 AND b = 'x OR y' AND c = 3"
    let limits : Limits := ⟨2 ^ 64 - 1⟩
    ((∃ combined, combine limits .and (sources.map .text) = .ok combined) ∧
      ∃ parsed, parse limits joined = .ok parsed) ∧
    ∀ combined parsed, combine limits .and (sources.map .text) = .ok combined →
      parse limits joined = .ok parsed →
      combined.comparisons = parsed.comparisons ∧
      ∀ context, combined.evaluate context = parsed.evaluate context := by
  intro sources joined limits
  let first := test ⟨"a", .eq, .int 1⟩
  let second := join .and (test ⟨"b", .eq, .text "x OR y"⟩) (test ⟨"c", .eq, .int 3⟩)
  have writable : (join .and first second).IsWritable := by
    simp only [IsWritable, first, second, comparisons, List.cons_append, List.nil_append,
      List.forall_mem_cons]
    exact ⟨⟨by decide +kernel, by decide, by rintro x ⟨⟩⟩,
      ⟨by decide +kernel, by decide, by rintro x ⟨⟩⟩,
      ⟨by decide +kernel, by decide, by rintro x ⟨⟩⟩, by simp⟩
  obtain ⟨firstWritable, secondWritable⟩ := isWritable_join_iff.mp writable
  have reads : ∀ source ∈ sources, ∃ rule, .connective .or ∉ rule.kinds ∧
      parse limits source = .ok rule := by
    have spelled : sources = [first.text, second.text] := by decide +kernel
    rw [spelled]
    simp only [List.forall_mem_cons]
    exact ⟨⟨first, by decide, parse_text_of_isPlain (by decide) firstWritable (by decide)⟩,
      ⟨second, by decide, parse_text_of_isPlain (by decide) secondWritable (by decide)⟩, by simp⟩
  have agreement := combine_agrees_with_joinTexts .and sources (by decide) ?_ ?_
  · have spelled : Connective.joinTexts .and sources = joined := by decide +kernel
    rw [spelled] at agreement
    exact ⟨agreement.1 limits (by decide), agreement.2 limits⟩
  · intro source member
    obtain ⟨rule, -, read⟩ := reads source member
    exact ⟨limits, rule, read⟩
  · intro _ source member tokens scanned token listed isOr
    obtain ⟨rule, noOr, read⟩ := reads source member
    obtain ⟨_, sameScanned, spelled, -⟩ := parse_eq_ok_iff_kinds.mp read
    cases scanned.symm.trans sameScanned
    rw [← spelled, ← isOr] at noOr
    exact noOr (List.mem_map_of_mem listed)

end Rule

end FieldRules
