import FieldRules.Proofs.Blob.RoundTrip
import FieldRules.Proofs.Limits
import FieldRules.Session

/-!
What one step can do to a session, and so what a script can. A rule that is read or combined is within
the limits in force at that step, and only joins make rules of a session deeper than its limits were.
-/

namespace FieldRules.Session

variable {session next : Session} {action : Step} {reply : Reply}

theorem onTop_eq_ok_iff {go : Rule → List Rule → Outcome} {found : Session × Reply} :
    session.onTop go = .ok found ↔
      ∃ top rest, session.stack = top :: rest ∧ go top rest = .ok found := by
  cases stack : session.stack <;> simp [onTop, stack]

theorem onTopTwo_eq_ok_iff {go : Rule → Rule → List Rule → Outcome} {found : Session × Reply} :
    session.onTopTwo go = .ok found ↔
      ∃ below top rest, session.stack = top :: below :: rest ∧ go below top rest = .ok found := by
  rcases stack : session.stack with _ | ⟨top, _ | ⟨below, rest⟩⟩ <;> simp [onTopTwo, stack]

inductive Part where
  | limits
  | context
  | stack
  | json
  | bytes

def Step.part? : Step → Option Part
  | .setLimits _ => some .limits
  | .setField .. | .setContext _ | .readContext _ => some .context
  | .pushTest _ | .pushParsed _ | .join _ | .combine .. | .duplicate | .drop | .swap | .decodeJson
  | .decode _ => some .stack
  | .writeJson | .setJson _ => some .json
  | .encode _ | .pokeByte .. | .truncate _ | .appendBytes _ => some .bytes
  | .getField _ | .showContext | .compareTop | .evaluate | .evaluateJson => none

structure SameBut (part : Option Part) (session next : Session) : Prop where
  limits : part ≠ some .limits → next.limits = session.limits
  context : part ≠ some .context → next.context = session.context
  stack : part ≠ some .stack → next.stack = session.stack
  json : part ≠ some .json → next.json = session.json
  bytes : part ≠ some .bytes → next.bytes = session.bytes

theorem sameBut_self (part : Option Part) : SameBut part session session :=
  ⟨fun _ => rfl, fun _ => rfl, fun _ => rfl, fun _ => rfl, fun _ => rfl⟩

theorem sameBut_limits (limits : Limits) :
    SameBut (some .limits) session { session with limits := limits } :=
  ⟨fun other => absurd rfl other, fun _ => rfl, fun _ => rfl, fun _ => rfl, fun _ => rfl⟩

theorem sameBut_context (context : Context) :
    SameBut (some .context) session (session.withContext context).1 :=
  ⟨fun _ => rfl, fun other => absurd rfl other, fun _ => rfl, fun _ => rfl, fun _ => rfl⟩

theorem sameBut_stack (stack : List Rule) :
    SameBut (some .stack) session { session with stack := stack } :=
  ⟨fun _ => rfl, fun _ => rfl, fun other => absurd rfl other, fun _ => rfl, fun _ => rfl⟩

theorem sameBut_json (json : String) : SameBut (some .json) session { session with json := json } :=
  ⟨fun _ => rfl, fun _ => rfl, fun _ => rfl, fun other => absurd rfl other, fun _ => rfl⟩

theorem sameBut_bytes (bytes : List UInt8) :
    SameBut (some .bytes) session { session with bytes := bytes } :=
  ⟨fun _ => rfl, fun _ => rfl, fun _ => rfl, fun _ => rfl, fun other => absurd rfl other⟩

def Step.isLimited : Step → Bool
  | .pushParsed _ | .combine .. | .decodeJson | .decode _ => true
  | _ => false

theorem exists_push_of_acceptsByDepth {ε : Type} {answer : Limits → Except ε Rule}
    (accepts : AcceptsByDepth answer) {wrap : ε → Failure}
    (done : ((answer session.limits).mapError wrap >>= fun rule => .ok (session.push rule)) =
      .ok (next, reply)) :
    ∃ rule, (next, reply) = session.push rule ∧ rule.depth ≤ session.limits.maxDepth := by
  obtain ⟨rule, accepted, pushed⟩ := bind_eq_ok_iff.mp done
  have fits := ((accepts session.limits rule).mp (mapError_eq_ok_iff.mp accepted)).2
  exact ⟨rule, (Except.ok.inj pushed).symm, fits⟩

theorem step_of_isLimited (limited : action.isLimited = true)
    (done : session.step action = .ok (next, reply)) :
    ∃ rule, (next, reply) = session.push rule ∧ rule.depth ≤ session.limits.maxDepth := by
  cases action with
  | pushParsed source =>
      exact exists_push_of_acceptsByDepth (Rule.parse_acceptsByDepth source) done
  | combine connective count texts =>
      obtain ⟨-, combined⟩ := guard_eq_ok_iff.mp done
      exact exists_push_of_acceptsByDepth (Rule.combine_acceptsByDepth connective _) combined
  | decodeJson =>
      exact exists_push_of_acceptsByDepth (ExchangeTree.decode_acceptsByDepth session.json) done
  | decode expected =>
      exact exists_push_of_acceptsByDepth (Blob.decode_acceptsByDepth expected session.bytes) done
  | _ => cases limited

theorem sameBut_of_step (done : session.step action = .ok (next, reply)) :
    SameBut action.part? session next := by
  cases action with
  | setLimits limits =>
      cases done
      exact sameBut_limits limits
  | setField | setContext =>
      cases done
      exact sameBut_context _
  | readContext json =>
      obtain ⟨context, -, same⟩ := bind_eq_ok_iff.mp done
      cases same
      exact sameBut_context context
  | pushTest comparison =>
      cases done
      exact sameBut_stack _
  | pushParsed | combine | decodeJson | decode =>
      obtain ⟨rule, pushed, -⟩ := step_of_isLimited rfl done
      cases pushed
      exact sameBut_stack _
  | join | swap =>
      obtain ⟨below, top, rest, -, same⟩ := onTopTwo_eq_ok_iff.mp done
      cases same
      exact sameBut_stack _
  | duplicate | drop =>
      obtain ⟨top, rest, -, same⟩ := onTop_eq_ok_iff.mp done
      cases same
      exact sameBut_stack _
  | writeJson =>
      obtain ⟨top, rest, -, same⟩ := onTop_eq_ok_iff.mp done
      cases same
      exact sameBut_json _
  | setJson json =>
      cases done
      exact sameBut_json json
  | encode source =>
      obtain ⟨top, rest, -, written⟩ := onTop_eq_ok_iff.mp done
      obtain ⟨bytes, -, same⟩ := bind_eq_ok_iff.mp written
      cases same
      exact sameBut_bytes bytes
  | pokeByte index byte =>
      simp only [step] at done
      split at done
      · cases done
        exact sameBut_bytes _
      · cases done
  | truncate | appendBytes =>
      cases done
      exact sameBut_bytes _
  | getField | showContext =>
      cases done
      exact sameBut_self _
  | compareTop =>
      obtain ⟨below, top, rest, -, same⟩ := onTopTwo_eq_ok_iff.mp done
      cases same
      exact sameBut_self _
  | evaluate =>
      obtain ⟨top, rest, -, found⟩ := onTop_eq_ok_iff.mp done
      obtain ⟨value, -, same⟩ := bind_eq_ok_iff.mp found
      cases same
      exact sameBut_self _
  | evaluateJson =>
      obtain ⟨value, -, same⟩ := bind_eq_ok_iff.mp done
      cases same
      exact sameBut_self _

/-- What a step can make of the stack. -/
inductive Leaves (session : Session) : Step → List Rule → Prop
  | kept {action : Step} : action.part? ≠ some .stack → Leaves session action session.stack
  | accepted {action : Step} {rule : Rule} :
      action.isLimited = true → rule.depth ≤ session.limits.maxDepth →
      Leaves session action (rule :: session.stack)
  | test (comparison : Comparison) :
      Leaves session (.pushTest comparison) (.test comparison :: session.stack)
  | joined (connective : Connective) {below top : Rule} {rest : List Rule} :
      session.stack = top :: below :: rest →
      Leaves session (.join connective) (.join connective below top :: rest)
  | duplicated {top : Rule} {rest : List Rule} :
      session.stack = top :: rest → Leaves session .duplicate (top :: session.stack)
  | dropped {top : Rule} {rest : List Rule} :
      session.stack = top :: rest → Leaves session .drop rest
  | swapped {below top : Rule} {rest : List Rule} :
      session.stack = top :: below :: rest → Leaves session .swap (below :: top :: rest)

theorem leaves_of_step (done : session.step action = .ok (next, reply)) :
    session.Leaves action next.stack := by
  cases action with
  | pushParsed | combine | decodeJson | decode =>
      obtain ⟨rule, pushed, fits⟩ := step_of_isLimited rfl done
      cases pushed
      exact .accepted rfl fits
  | pushTest comparison =>
      cases done
      exact .test comparison
  | join connective =>
      obtain ⟨below, top, rest, stack, same⟩ := onTopTwo_eq_ok_iff.mp done
      cases same
      exact .joined connective stack
  | duplicate =>
      obtain ⟨top, rest, stack, same⟩ := onTop_eq_ok_iff.mp done
      cases same
      exact .duplicated stack
  | drop =>
      obtain ⟨top, rest, stack, same⟩ := onTop_eq_ok_iff.mp done
      cases same
      exact .dropped stack
  | swap =>
      obtain ⟨below, top, rest, stack, same⟩ := onTopTwo_eq_ok_iff.mp done
      cases same
      exact .swapped stack
  | _ =>
      rw [(sameBut_of_step done).stack (by simp [Step.part?])]
      exact .kept (by simp [Step.part?])

/-! ### Scripts -/

/-- The session after a step. One that fails changes nothing. -/
def afterStep (session : Session) (action : Step) : Session :=
  match session.step action with
  | .ok (next, _) => next
  | .error _ => session

def after (session : Session) (actions : List Step) : Session :=
  actions.foldl afterStep session

theorem after_append (earlier later : List Step) :
    session.after (earlier ++ later) = (session.after earlier).after later :=
  List.foldl_append

theorem run_cons (later : List Step) :
    session.run (action :: later) =
      ((session.step action).map Prod.snd, (session.afterStep action).stack.length) ::
        (session.afterStep action).run later := by
  rw [run, afterStep]
  cases session.step action <;> rfl

/-- Earlier steps answer the same whatever comes after them. -/
theorem run_append (earlier later : List Step) :
    session.run (earlier ++ later) = session.run earlier ++ (session.after earlier).run later := by
  induction earlier generalizing session with
  | nil => rfl
  | cons action earlier ih =>
      rw [List.cons_append, run_cons, run_cons, ih]
      rfl

theorem length_run (actions : List Step) : (session.run actions).length = actions.length := by
  induction actions generalizing session with
  | nil => rfl
  | cons action actions ih => rw [run_cons, List.length_cons, List.length_cons, ih]

theorem getElem?_run (earlier later : List Step) :
    (session.run (earlier ++ action :: later))[earlier.length]? =
      some (((session.after earlier).step action).map Prod.snd,
        (session.after (earlier ++ [action])).stack.length) := by
  have place : (session.run earlier).length ≤ earlier.length := Nat.le_of_eq (length_run earlier)
  rw [run_append, List.getElem?_append_right place, length_run, Nat.sub_self, run_cons,
    List.getElem?_cons_zero, after_append]
  rfl

/-! ### Limits -/

def Step.limits? : Step → Option Limits
  | .setLimits limits => some limits
  | _ => none

theorem limits_afterStep :
    (session.afterStep action).limits = action.limits?.getD session.limits := by
  rw [afterStep]
  cases done : session.step action with
  | error failure =>
      cases action with
      | setLimits limits => cases done
      | _ => rfl
  | ok found =>
      cases action with
      | setLimits limits =>
          cases done
          rfl
      | _ => exact (sameBut_of_step done).limits (by simp [Step.part?])

/-- The limits in force are those that were set last. -/
theorem limits_after (actions : List Step) :
    (session.after actions).limits = (actions.filterMap Step.limits?).getLastD session.limits := by
  induction actions generalizing session with
  | nil => rfl
  | cons action actions ih =>
      have rest := @ih (session.afterStep action)
      rw [limits_afterStep] at rest
      rw [after, List.foldl_cons]
      refine rest.trans ?_
      cases set : action.limits? with
      | none => rw [List.filterMap_cons_none set, Option.getD_none]
      | some limits => rw [List.filterMap_cons_some set, Option.getD_some, List.getLastD_cons]

/-- A rule that a script reads or combines is within the limits set last before, and is pushed. -/
theorem run_rule_within {earlier later : List Step} {rule : Rule} {size : Nat}
    (limited : action.isLimited = true)
    (answered : (session.run (earlier ++ action :: later))[earlier.length]? =
      some (.ok (.rule rule), size)) :
    rule.depth ≤ ((earlier.filterMap Step.limits?).getLastD session.limits).maxDepth ∧
      (session.after (earlier ++ [action])).stack = rule :: (session.after earlier).stack := by
  rw [getElem?_run, Option.some.injEq, Prod.mk.injEq] at answered
  obtain ⟨⟨next, reply⟩, done, same⟩ := map_eq_ok_iff.mp answered.1
  obtain ⟨own, pushed, fits⟩ := step_of_isLimited limited done
  have moved : session.after (earlier ++ [action]) = next := by
    rw [after_append, after, List.foldl_cons, List.foldl_nil, afterStep, done]
  cases pushed
  cases same
  rw [← limits_after, moved]
  exact ⟨fits, rfl⟩

def Step.joins : Step → Nat
  | .join _ => 1
  | _ => 0

/-- The limits are within the bound, and the rules are beyond it by no more than the joins made. -/
structure IsWithin (bound joins : Nat) (session : Session) : Prop where
  positive : 0 < bound
  limits : session.limits.maxDepth ≤ bound
  stack : ∀ rule ∈ session.stack, rule.depth ≤ bound + joins

variable {bound joins : Nat}

theorem IsWithin.stack_of_leaves {stack : List Rule} (within : session.IsWithin bound joins)
    (leaves : session.Leaves action stack) :
    ∀ rule ∈ stack, rule.depth ≤ bound + (joins + action.joins) := by
  have kept : ∀ rule ∈ session.stack, rule.depth ≤ bound + (joins + action.joins) :=
    fun rule member => Nat.le_trans (within.stack rule member) (by omega)
  cases leaves with
  | kept _ => exact kept
  | accepted _ fits =>
      have low := within.limits
      exact List.forall_mem_cons.mpr ⟨by omega, kept⟩
  | test comparison =>
      have positive := within.positive
      exact List.forall_mem_cons.mpr ⟨by rw [Rule.depth_test]; omega, kept⟩
  | joined connective found =>
      have bounds := within.stack
      rw [found] at bounds
      obtain ⟨topBound, others⟩ := List.forall_mem_cons.mp bounds
      obtain ⟨belowBound, others⟩ := List.forall_mem_cons.mp others
      refine List.forall_mem_cons.mpr ⟨?_, fun rule member => ?_⟩
      · rw [Rule.depth_join, Step.joins]
        omega
      · exact Nat.le_trans (others rule member) (by omega)
  | duplicated found => exact List.forall_mem_cons.mpr ⟨kept _ (by simp [found]), kept⟩
  | dropped found => exact fun rule member => kept rule (by simp [found, member])
  | swapped found =>
      intro rule member
      refine kept rule ?_
      rw [found]
      exact (List.Perm.swap _ _ _).mem_iff.mp member

theorem IsWithin.afterStep (within : session.IsWithin bound joins)
    (limited : ∀ limits, action = .setLimits limits → limits.maxDepth ≤ bound) :
    (session.afterStep action).IsWithin bound (joins + action.joins) where
  positive := within.positive
  limits := by
    rw [limits_afterStep]
    cases action with
    | setLimits limits => exact limited limits rfl
    | _ => exact within.limits
  stack := by
    rw [Session.afterStep]
    cases done : session.step action with
    | error failure => exact fun rule member => Nat.le_trans (within.stack rule member) (by omega)
    | ok found => exact within.stack_of_leaves (leaves_of_step done)

theorem IsWithin.after {actions : List Step} (within : session.IsWithin bound joins)
    (limited : ∀ limits, Step.setLimits limits ∈ actions → limits.maxDepth ≤ bound) :
    (session.after actions).IsWithin bound (joins + (actions.map Step.joins).sum) := by
  induction actions generalizing session joins with
  | nil => exact within
  | cons action actions ih =>
      have stepped := within.afterStep fun limits same => limited limits (same ▸ List.mem_cons_self)
      have rest := ih stepped fun limits set => limited limits (List.mem_cons_of_mem action set)
      rw [List.map_cons, List.sum_cons, ← Nat.add_assoc]
      exact rest

/-- Starting from no rules, each join of a script can make a rule deeper by one than the limits that the
script was ever under. -/
theorem depth_le_of_mem_after {actions : List Step} {rule : Rule} (empty : session.stack = [])
    (positive : 0 < bound) (start : session.limits.maxDepth ≤ bound)
    (limited : ∀ limits, Step.setLimits limits ∈ actions → limits.maxDepth ≤ bound)
    (member : rule ∈ (session.after actions).stack) :
    rule.depth ≤ bound + (actions.map Step.joins).sum := by
  have within : session.IsWithin bound 0 := ⟨positive, start, by simp [empty]⟩
  have bounded := (within.after limited).stack rule member
  rwa [Nat.zero_add] at bounded

theorem step_decode_of_step_encode {top : Rule} {rest : List Rule} {source expected : Option String}
    (stack : session.stack = top :: rest) (fits : top.depth ≤ session.limits.maxDepth)
    (done : session.step (.encode source) = .ok (next, reply))
    (own : expected = none ∨ expected = source) :
    next.step (.decode expected) = .ok (next.push top) := by
  obtain ⟨_, _, same, found⟩ := onTop_eq_ok_iff.mp done
  obtain ⟨rfl, rfl⟩ := List.cons.inj (same.symm.trans stack)
  obtain ⟨bytes, written, same⟩ := bind_eq_ok_iff.mp found
  cases same
  have read := Blob.decode_of_encode fits (mapError_eq_ok_iff.mp written) own
  simp only [step, read]
  rfl

end FieldRules.Session
