import FieldRules.Exchange
import FieldRules.Limits
import FieldRules.Proofs.Blob.Acceptance
import FieldRules.Proofs.Json.RoundTrip
import FieldRules.Proofs.Rule.Combination

/-!
Limits are read back from their JSON, and only filter. Under narrower limits every answer is the same as
under wider ones or a refusal for depth, and the rules that are refused so are just those beyond the
narrower limits.
-/

namespace FieldRules

namespace Limits

open Json (Members Reading)

def depthsOf (members : List (String × Json)) : List Json :=
  (members.filter (·.1 = fieldName)).map Prod.snd

def given : Option Nat → List Json
  | none => []
  | some depth => [.integer depth]

theorem given_inj {first second : Option Nat} : given first = given second ↔ first = second := by
  cases first <;> cases second <;> simp [given]

theorem readDepth_eq_ok_iff {reading : Reading} {json : Json} {depth : Nat}
    (spells : reading.Spells json) : readDepth reading = .ok depth ↔ json = .integer depth := by
  cases spells with
  | @integer spelling value found =>
      simp only [readDepth, found, Json.integer.injEq]
      split
      · rw [Except.ok.injEq]
        omega
      · simp only [reduceCtorEq, false_iff]
        omega
  | float found => simp [readDepth, found]
  | _ => simp [readDepth]

theorem readMembers_depth {pieces : List Json.Piece} (value : Reading) (rest : Members)
    (depth : Option Nat) (named : Json.stringOfPieces? pieces = some fieldName) :
    readMembers depth (.member pieces value rest) =
      if depth.isSome then .error .mismatched
      else readDepth value >>= fun found => readMembers (some found) rest := by
  simp only [readMembers, Json.nameOf, named, Json.orMalformed, bind, Except.bind, if_true]
  cases depth <;> rfl

theorem readMembers_other {pieces : List Json.Piece} {name : String} {value : Reading}
    (rest : Members) (depth : Option Nat) (named : Json.stringOfPieces? pieces = some name)
    (other : name ≠ fieldName) (whole : value.isWhole = true) :
    readMembers depth (.member pieces value rest) = readMembers depth rest := by
  simp only [readMembers, Json.nameOf, named, Json.orMalformed, bind, Except.bind, if_neg other,
    if_pos whole]

theorem readMembers_eq_ok_iff {found : Members} {members : List (String × Json)}
    (write : found.Write members) (readable : Json.MembersReadable members)
    {depth result : Option Nat} :
    readMembers depth found = .ok result ↔ given depth ++ depthsOf members = given result := by
  induction members generalizing found depth with
  | nil =>
      cases write
      rw [readMembers, Except.ok.injEq, depthsOf, List.filter_nil, List.map_nil, List.append_nil,
        given_inj]
  | cons first members ih =>
      cases write with
      | @member pieces name value rest json _ named writes write =>
          by_cases isDepth : name = fieldName
          · have depths : depthsOf ((name, json) :: members) = json :: depthsOf members := by
              simp [depthsOf, isDepth]
            rw [readMembers_depth value rest depth (isDepth ▸ named), depths]
            cases depth with
            | some depth => cases result <;> simp [given]
            | none =>
                simp only [Option.isSome_none, Bool.false_eq_true, if_false, bind_eq_ok_iff,
                  readDepth_eq_ok_iff (writes.spells readable.1), ih write readable.2]
                constructor
                · rintro ⟨own, rfl, rest⟩
                  exact rest
                · intro same
                  cases result with
                  | none => cases same
                  | some own =>
                      obtain ⟨here, others⟩ := List.cons.inj same
                      exact ⟨own, here, by rw [others, List.append_nil]⟩
          · have depths : depthsOf ((name, json) :: members) = depthsOf members := by
              simp [depthsOf, isDepth]
            rw [readMembers_other rest depth named isDepth writes.isWhole, depths,
              ih write readable.2]

/-- The limits that the text of an object writes, in which the members may stand in any order and blanks
between the tokens: a depth that no member gives is the usual one, and at most one member may give it. -/
theorem decode_eq_ok_iff {members : List (String × Json)} {text : String} {limits : Limits}
    (readable : Json.MembersReadable members)
    (spaced : Json.Spaced (Json.object members).words text.toList) :
    decode text = .ok limits ↔
      (depthsOf members = [] ∧ limits = {}) ∨ depthsOf members = [.integer limits.maxDepth] := by
  obtain ⟨reading, writes, document⟩ := Json.exists_document_words (.object members)
  cases writes with
  | object write =>
      rw [decode, Json.readWith_eq_ok_iff, document text spaced, read, map_eq_ok_iff]
      simp only [readMembers_eq_ok_iff write readable, given, List.nil_append, and_true]
      constructor
      · rintro ⟨depth, found, rfl⟩
        cases depth with
        | none => exact Or.inl ⟨found, rfl⟩
        | some depth => exact Or.inr found
      · rintro (⟨found, rfl⟩ | found)
        · exact ⟨none, found, rfl⟩
        · exact ⟨some limits.maxDepth, found, rfl⟩

theorem decode_toJson {limits : Limits} (fits : limits.maxDepth < 2 ^ 64) :
    decode limits.toJson.text = .ok limits := by
  have readable : Json.MembersReadable [(fieldName, .integer limits.maxDepth)] :=
    ⟨Json.numberOfText?_intText (by omega) (by omega), trivial⟩
  exact (decode_eq_ok_iff readable (Json.spaced_text limits.toJson)).mpr (Or.inr rfl)

end Limits

/-- An answer next to the one under wider limits: the same, or a refusal. -/
def Kept {ε α : Type} (refused : ε → Prop) (narrow wide : Except ε α) : Prop :=
  narrow = wide ∨ ∃ fault, refused fault ∧ narrow = .error fault

namespace Kept

variable {ε δ α β : Type} {refused : ε → Prop}

theorem same (answer : Except ε α) : Kept refused answer answer :=
  Or.inl rfl

theorem bind {first wideFirst : Except ε α} {next wideNext : α → Except ε β}
    (kept : Kept refused first wideFirst)
    (continued : ∀ value, wideFirst = .ok value → Kept refused (next value) (wideNext value)) :
    Kept refused (first >>= next) (wideFirst >>= wideNext) := by
  rcases kept with rfl | ⟨fault, isRefused, rfl⟩
  · cases answer : first with
    | error fault => exact .same _
    | ok value => exact continued value answer
  · exact Or.inr ⟨fault, isRefused, rfl⟩

theorem mapError {narrow wide : Except ε α} {wrap : ε → δ} {wrapped : δ → Prop}
    (wraps : ∀ fault, refused fault → wrapped (wrap fault)) (kept : Kept refused narrow wide) :
    Kept wrapped (narrow.mapError wrap) (wide.mapError wrap) := by
  rcases kept with rfl | ⟨fault, isRefused, rfl⟩
  · exact .same _
  · exact Or.inr ⟨wrap fault, wraps fault isRefused, rfl⟩

theorem check {limit wideLimit depth : Nat} (wider : limit ≤ wideLimit) {fault wideFault : ε}
    (refuses : limit < depth → refused fault) (next : Except ε α) :
    Kept refused (if limit < depth then .error fault else next)
      (if wideLimit < depth then .error wideFault else next) := by
  by_cases deep : limit < depth
  · rw [if_pos deep]
    exact Or.inr ⟨fault, refuses deep, rfl⟩
  · rw [if_neg deep, if_neg (by omega)]
    exact .same next

end Kept

/-! ### Refusals for depth -/

def ParseError.IsTooDeep (limits : Limits) (error : ParseError) : Prop :=
  error.fault = .tooDeep limits.maxDepth

def SyntaxError.IsTooDeep (limits : Limits) : SyntaxError → Prop
  | lexical _ => False
  | grammatical error => error.IsTooDeep limits

def TooDeep.Exceeds (limits : Limits) (fault : TooDeep) : Prop :=
  fault.limit = limits.maxDepth ∧ limits.maxDepth < fault.depth

def CombineError.IsTooDeep (limits : Limits) : CombineError → Prop
  | tooDeep fault => fault.Exceeds limits
  | badRule _ cause => cause.IsTooDeep limits
  | _ => False

def ExchangeTree.Refusal.IsTooDeep (limits : Limits) : Refusal → Prop
  | shape _ => False
  | tooDeep fault => fault.Exceeds limits

def ExchangeTree.IsTooDeep (limits : Limits) : Json.TextError Refusal → Prop
  | .json _ => False
  | .content refusal => refusal.IsTooDeep limits

def Blob.Error.IsTooDeep (limits : Limits) : Blob.Error → Prop
  | tooDeep fault => fault.Exceeds limits
  | _ => False

/-! ### What limits change -/

structure Limits.Filter {ε : Type} (refused : ε → Prop) (limits wide : Limits)
    (answer : Limits → Except ε Rule) : Prop where
  kept : Kept refused (answer limits) (answer wide)
  ok_iff : ∀ rule, answer wide = .ok rule →
    (answer limits = .ok rule ↔ rule.depth ≤ limits.maxDepth)
  within : ∀ rule, answer limits = .ok rule → rule.depth ≤ limits.maxDepth

/-- A rule that is accepted under some limits is accepted under all that it is within. -/
def AcceptsByDepth {ε : Type} (answer : Limits → Except ε Rule) : Prop :=
  ∀ limits rule, answer limits = .ok rule ↔
    (∃ wide, answer wide = .ok rule) ∧ rule.depth ≤ limits.maxDepth

theorem AcceptsByDepth.unique {ε : Type} {answer : Limits → Except ε Rule}
    (accepts : AcceptsByDepth answer) {limits wide : Limits} {first second : Rule}
    (firstAccepted : answer limits = .ok first) (secondAccepted : answer wide = .ok second) :
    first = second := by
  let both : Limits := ⟨max first.depth second.depth⟩
  have firstWithin : answer both = .ok first :=
    (accepts both first).mpr ⟨⟨limits, firstAccepted⟩, Nat.le_max_left ..⟩
  have secondWithin : answer both = .ok second :=
    (accepts both second).mpr ⟨⟨wide, secondAccepted⟩, Nat.le_max_right ..⟩
  exact Except.ok.inj (firstWithin.symm.trans secondWithin)

theorem AcceptsByDepth.filter {ε : Type} {refused : ε → Prop} {limits wide : Limits}
    {answer : Limits → Except ε Rule} (accepts : AcceptsByDepth answer)
    (kept : Kept refused (answer limits) (answer wide)) : limits.Filter refused wide answer where
  kept := kept
  ok_iff rule accepted := by
    rw [accepts limits rule]
    exact ⟨And.right, fun fits => ⟨⟨wide, accepted⟩, fits⟩⟩
  within rule accepted := ((accepts limits rule).mp accepted).2

section

variable {limits wide : Limits} (wider : limits.maxDepth ≤ wide.maxDepth)

include wider

namespace Grammar

theorem kept_checkDepth (position : Nat) (rule : MeasuredRule) :
    Kept (ParseError.IsTooDeep limits) (checkDepth limits position rule)
      (checkDepth wide position rule) := by
  have refuses : limits.maxDepth < rule.depth →
      ParseError.IsTooDeep limits ⟨.tooDeep limits.maxDepth, position⟩ := fun _ => rfl
  exact .check wider refuses _

theorem kept_comparison (ending : Nat) (tokens : List Token) :
    Kept (ParseError.IsTooDeep limits) ((comparison limits ending).read tokens)
      ((comparison wide ending).read tokens) := by
  refine .bind (.same _) ?_
  rintro ⟨field, tokens⟩ _
  refine .bind (.same _) ?_
  rintro ⟨⟨comparator, position⟩, tokens⟩ _
  refine .bind (.same _) ?_
  rintro ⟨literal, tokens⟩ _
  exact .bind (kept_checkDepth wider position _) fun rule _ => .same _

omit wider in
theorem continueChain_opens {connective : Connective} {operand : TokenReader MeasuredRule}
    (sofar : MeasuredRule) (position : Nat) (rest : List Token) :
    continueChain limits connective operand sofar (⟨.connective connective, position⟩ :: rest) =
      operand.read rest >>= fun (right, after) =>
        checkDepth limits position (.join connective sofar right) >>= fun joined =>
          continueChain limits connective operand joined after := by
  cases read : operand.read rest with
  | ok pair => exact continueChain_of_opens read
  | error fault =>
      rw [continueChain, if_pos rfl]
      split
      · simp_all [bind, Except.bind]
      · simp_all

theorem kept_continueChain {connective : Connective} {operand wideOperand : TokenReader MeasuredRule}
    (operands : ∀ tokens, Kept (ParseError.IsTooDeep limits) (operand.read tokens)
      (wideOperand.read tokens)) (sofar : MeasuredRule) (tokens : List Token) :
    Kept (ParseError.IsTooDeep limits) (continueChain limits connective operand sofar tokens)
      (continueChain wide connective wideOperand sofar tokens) := by
  -- The wide operand reads at least one token, and it is the wide chain that goes on after it.
  induction size : tokens.length using Nat.strongRecOn generalizing sofar tokens with
  | ind size ih =>
      by_cases opens : Opens connective tokens
      · obtain ⟨⟨_, position⟩, rest, rfl, rfl⟩ : ∃ token rest, tokens = token :: rest ∧
            token.kind = .connective connective := by
          cases tokens with
          | nil => simp [Opens] at opens
          | cons token rest => exact ⟨token, rest, rfl, by simpa [Opens] using opens⟩
        rw [continueChain_opens, continueChain_opens]
        refine .bind (operands rest) ?_
        rintro ⟨right, after⟩ read
        refine .bind (kept_checkDepth wider position _) fun joined _ => ?_
        have shorter := wideOperand.shorter read
        rw [List.length_cons] at size
        exact ih after.length (by omega) joined after rfl
      · rw [continueChain_of_not_opens sofar opens, continueChain_of_not_opens sofar opens]
        exact .same _

theorem kept_chain {connective : Connective} {operand wideOperand : TokenReader MeasuredRule}
    (operands : ∀ tokens, Kept (ParseError.IsTooDeep limits) (operand.read tokens)
      (wideOperand.read tokens)) (tokens : List Token) :
    Kept (ParseError.IsTooDeep limits) ((chain limits connective operand).read tokens)
      ((chain wide connective wideOperand).read tokens) := by
  refine .bind (operands tokens) ?_
  rintro ⟨first, rest⟩ _
  exact kept_continueChain wider operands first rest

end Grammar

namespace Rule

theorem kept_ofTokens (ending : Nat) (tokens : List Token) :
    Kept (ParseError.IsTooDeep limits) (ofTokens limits ending tokens)
      (ofTokens wide ending tokens) := by
  refine .bind ?_ fun _ _ => .same _
  exact Grammar.kept_chain wider (Grammar.kept_chain wider (Grammar.kept_comparison wider ending))
    tokens

theorem kept_parse (source : String) :
    Kept (SyntaxError.IsTooDeep limits) (parse limits source) (parse wide source) :=
  .bind (.same _) fun tokens _ => .mapError (fun _ tooDeep => tooDeep) (kept_ofTokens wider _ tokens)

omit wider in
theorem parse_acceptsByDepth (source : String) :
    AcceptsByDepth fun limits => parse limits source := by
  intro limits rule
  simp only [parse_eq_ok_iff, ofTokens_eq_ok_iff_groups]
  constructor
  · rintro ⟨tokens, scanned, groups, spelled, same, fits⟩
    exact ⟨⟨limits, tokens, scanned, groups, spelled, same, fits⟩, fits⟩
  · rintro ⟨⟨_, tokens, scanned, groups, spelled, same, _⟩, fits⟩
    exact ⟨tokens, scanned, groups, spelled, same, fits⟩

end Rule

theorem MeasuredRule.kept_within (rule : MeasuredRule) :
    Kept (TooDeep.Exceeds limits) (rule.within limits) (rule.within wide) :=
  .check wider (fun deep => ⟨rfl, deep⟩) _

theorem MeasuredRule.kept_within_combined (rule : MeasuredRule) :
    Kept (CombineError.IsTooDeep limits) ((rule.within limits).mapError .tooDeep)
      ((rule.within wide).mapError .tooDeep) :=
  .mapError (fun _ exceeds => exceeds) (rule.kept_within wider)

theorem RuleSource.kept_measured (index : Nat) (source : RuleSource) :
    Kept (CombineError.IsTooDeep limits) (source.measured limits index)
      (source.measured wide index) := by
  refine .bind ?_ fun rule _ => (MeasuredRule.ofRule rule).kept_within_combined wider
  cases source with
  | tree rule => exact .same _
  | text source =>
      simp only [RuleSource.rule]
      split
      · exact .same _
      · exact .mapError (fun _ tooDeep => tooDeep) (Rule.kept_parse wider source)

omit wider in
theorem RuleSource.denotes_of_within {sources : List RuleSource} {rules : List Rule}
    (denote : List.Forall₂ (Denotes wide) sources rules)
    (fit : ∀ rule ∈ rules, rule.depth ≤ limits.maxDepth) :
    List.Forall₂ (Denotes limits) sources rules := by
  induction denote with
  | nil => exact .nil
  | @cons source rule sources rules denotes _ ih =>
      obtain ⟨ruleFits, othersFit⟩ := List.forall_mem_cons.mp fit
      refine .cons ?_ (ih othersFit)
      cases source with
      | tree own => exact denotes
      | text source =>
          exact (Rule.parse_acceptsByDepth source limits rule).mpr ⟨⟨wide, denotes⟩, ruleFits⟩

namespace Rule

theorem kept_combineOnto (connective : Connective) (sofar : MeasuredRule) (index : Nat)
    (sources : List RuleSource) :
    Kept (CombineError.IsTooDeep limits) (combineOnto limits connective sofar index sources)
      (combineOnto wide connective sofar index sources) := by
  induction sources generalizing sofar index with
  | nil => exact .same _
  | cons source sources ih =>
      refine .bind (source.kept_measured wider index) fun right _ => ?_
      refine .bind (MeasuredRule.kept_within_combined wider _) fun joined _ => ?_
      exact ih joined (index + 1)

theorem kept_combine (connective : Connective) (sources : List RuleSource) :
    Kept (CombineError.IsTooDeep limits) (combine limits connective sources)
      (combine wide connective sources) := by
  cases sources with
  | nil => exact .same _
  | cons source sources =>
      refine .bind (source.kept_measured wider 0) fun first _ => ?_
      exact .bind (kept_combineOnto wider connective first 1 sources) fun combined _ => .same _

omit wider in
theorem combine_acceptsByDepth (connective : Connective) (sources : List RuleSource) :
    AcceptsByDepth fun limits => combine limits connective sources := by
  intro limits rule
  simp only [combine_eq_ok_iff]
  constructor
  · rintro ⟨first, rest, denote, same, fits⟩
    exact ⟨⟨limits, first, rest, denote, same, fits⟩, fits⟩
  · rintro ⟨⟨wide, first, rest, denote, rfl, _⟩, fits⟩
    -- No source and no intermediate result is deeper than the whole, so none is refused early.
    have allFit : ∀ rule ∈ first :: rest, rule.depth ≤ limits.maxDepth := fun _ member =>
      Nat.le_trans (depth_le_foldl_of_mem member) fits
    exact ⟨first, rest, RuleSource.denotes_of_within denote allFit, rfl, fits⟩

end Rule

namespace ExchangeTree

theorem kept_toRuleWithin (tree : ExchangeTree) :
    Kept (Refusal.IsTooDeep limits) (tree.toRuleWithin limits) (tree.toRuleWithin wide) := by
  refine .bind (.same _) fun rule _ => .bind ?_ fun measured _ => .same _
  exact .mapError (fun _ exceeds => exceeds) ((MeasuredRule.ofRule rule).kept_within wider)

theorem kept_decode (text : String) :
    Kept (IsTooDeep limits) (decode limits text) (decode wide text) :=
  .bind (.same _) fun tree _ => .mapError (fun _ tooDeep => tooDeep) (kept_toRuleWithin wider tree)

omit wider in
theorem toRuleWithin_eq_ok_iff {tree : ExchangeTree} {rule : Rule} :
    tree.toRuleWithin limits = .ok rule ↔
      tree.toRule = .ok rule ∧ rule.depth ≤ limits.maxDepth := by
  simp only [toRuleWithin, bind_eq_ok_iff, mapError_eq_ok_iff,
    MeasuredRule.within_eq_ok_iff]
  constructor
  · rintro ⟨own, read, _, ⟨rfl, fits⟩, same⟩
    cases same
    exact ⟨read, fits⟩
  · rintro ⟨read, fits⟩
    exact ⟨rule, read, _, ⟨rfl, fits⟩, rfl⟩

omit wider in
theorem decode_acceptsByDepth (text : String) : AcceptsByDepth fun limits => decode limits text := by
  intro limits rule
  simp only [decode, bind_eq_ok_iff, mapError_eq_ok_iff, toRuleWithin_eq_ok_iff]
  constructor
  · rintro ⟨tree, read, shaped, fits⟩
    exact ⟨⟨limits, tree, read, shaped, fits⟩, fits⟩
  · rintro ⟨⟨_, tree, read, shaped, _⟩, fits⟩
    exact ⟨tree, read, shaped, fits⟩

end ExchangeTree

namespace Blob

theorem kept_decode (expected : Option String) (bytes : List UInt8) :
    Kept (Error.IsTooDeep limits) (decode limits expected bytes) (decode wide expected bytes) := by
  refine .bind (.same _) fun payloadBytes _ => ?_
  split
  · exact .same _
  · rename_i payload _
    refine .bind (.same _) fun _ _ => ?_
    have refuses : limits.maxDepth < payload.depth →
        Error.IsTooDeep limits (.tooDeep ⟨payload.depth, limits.maxDepth⟩) := fun deep => ⟨rfl, deep⟩
    rw [ruleOf_eq, ruleOf_eq]
    exact .check wider refuses _

omit wider in
theorem decode_acceptsByDepth (expected : Option String) (bytes : List UInt8) :
    AcceptsByDepth fun limits => decode limits expected bytes := by
  intro limits rule
  simp only [decode_eq_ok_iff]
  constructor
  · rintro ⟨intact, payload, taken, checked, records, fits⟩
    refine ⟨⟨limits, intact, payload, taken, checked, records, fits⟩, ?_⟩
    rw [← records.depth]
    exact fits
  · rintro ⟨⟨_, intact, payload, taken, checked, records, _⟩, fits⟩
    rw [← records.depth] at fits
    exact ⟨intact, payload, taken, checked, records, fits⟩

end Blob

end

/-- Wherever a rule comes from, narrower limits give the answer of wider ones or refuse a depth, and give
the rule just if it is within them. The widest limits are those of 64 bits. -/
theorem limits_only_filter {limits wide : Limits} (wider : limits.maxDepth ≤ wide.maxDepth) :
    (∀ source, limits.Filter (SyntaxError.IsTooDeep limits) wide fun own =>
      Rule.parse own source) ∧
    (∀ connective sources, limits.Filter (CombineError.IsTooDeep limits) wide fun own =>
      Rule.combine own connective sources) ∧
    (∀ text, limits.Filter (ExchangeTree.IsTooDeep limits) wide fun own =>
      ExchangeTree.decode own text) ∧
    ∀ expected bytes, limits.Filter (Blob.Error.IsTooDeep limits) wide fun own =>
      Blob.decode own expected bytes := by
  refine ⟨?_, ?_, ?_, ?_⟩
  · intro source
    exact (Rule.parse_acceptsByDepth source).filter (Rule.kept_parse wider source)
  · intro connective sources
    exact (Rule.combine_acceptsByDepth connective sources).filter
      (Rule.kept_combine wider connective sources)
  · intro text
    exact (ExchangeTree.decode_acceptsByDepth text).filter (ExchangeTree.kept_decode wider text)
  · intro expected bytes
    exact (Blob.decode_acceptsByDepth expected bytes).filter (Blob.kept_decode wider expected bytes)

theorem limits_only_filter_below_widest :
    let first := Rule.test ⟨"a", .eq, .int 1⟩
    let rule := Rule.join .and first (.test ⟨"b", .ge, .int 2⟩)
    let widest : Limits := ⟨2 ^ 64 - 1⟩
    (Rule.parse widest rule.text = .ok rule ∧
      ∃ error, SyntaxError.IsTooDeep ⟨1⟩ error ∧ Rule.parse ⟨1⟩ rule.text = .error error) ∧
    Rule.combine widest .or [.text rule.text, .tree first] = .ok (.join .or rule first) ∧
      ∃ error, CombineError.IsTooDeep ⟨2⟩ error ∧
        Rule.combine ⟨2⟩ .or [.text rule.text, .tree first] = .error error := by
  intro first rule widest
  have writable : rule.IsWritable := by
    have own : (Comparison.mk "a" .eq (.int 1)).IsWritable :=
      ⟨by decide +kernel, by decide, by rintro x ⟨⟩⟩
    have other : (Comparison.mk "b" .ge (.int 2)).IsWritable :=
      ⟨by decide +kernel, by decide, by rintro x ⟨⟩⟩
    exact Rule.isWritable_join_iff.mpr
      ⟨by simpa [Rule.IsWritable, first] using own, by simpa [Rule.IsWritable] using other⟩
  have read : Rule.parse widest rule.text = .ok rule :=
    Rule.parse_text_of_isPlain (by decide) writable (by decide)
  have combined : Rule.combine widest .or [.text rule.text, .tree first] =
      .ok (.join .or rule first) :=
    Rule.combine_eq_ok_iff.mpr
      ⟨rule, [first], .cons read (.cons rfl .nil), rfl, by decide⟩
  refine ⟨⟨read, ?_⟩, combined, ?_⟩
  · have filter := (@limits_only_filter ⟨1⟩ widest (by decide)).1 rule.text
    rcases filter.kept with same | refused
    · exact absurd (filter.within rule (same.trans read)) (by decide)
    · exact refused
  · have filter := (@limits_only_filter ⟨2⟩ widest (by decide)).2.1 .or
      [.text rule.text, .tree first]
    rcases filter.kept with same | refused
    · exact absurd (filter.within _ (same.trans combined)) (by decide)
    · exact refused

end FieldRules
