import FieldRules.Blob
import FieldRules.Exchange
import FieldRules.Rule.Basic

/-!
Sessions: a stack of rules worked on step by step, together with the limits, the context, the JSON
text and the bytes that the steps use. A step that fails changes nothing.
-/

namespace FieldRules

structure Session where
  limits : Limits := {}
  context : Context := Fields.empty
  stack : List Rule := []
  json : String := ""
  bytes : List UInt8 := []

namespace Session

inductive Step where
  | setLimits (limits : Limits)
  | setField (name : String) (value : Scalar)
  | getField (name : String)
  | setContext (context : Context)
  | readContext (json : String)
  | showContext
  | pushTest (comparison : Comparison)
  | pushParsed (source : String)
  /-- Joins the two top rules, the top one on the right. -/
  | join (connective : Connective)
  /-- Combines the top rules, which stay, with texts after them. -/
  | combine (connective : Connective) (count : Nat) (texts : List String)
  | duplicate
  | drop
  | swap
  | compareTop
  | evaluate
  | writeJson
  | setJson (json : String)
  | decodeJson
  | evaluateJson
  | encode (source : Option String)
  | pokeByte (index : Nat) (byte : UInt8)
  | truncate (size : Nat)
  | appendBytes (bytes : List UInt8)
  | decode (expected : Option String)

inductive Reply where
  | nothing
  | number (value : Nat)
  | truth (value : Bool)
  | text (value : String)
  | field (value : Option Scalar)
  | context (value : Context)
  | rule (value : Rule)
  | bytes (value : List UInt8)

inductive Failure where
  | shortStack
  | indexOutOfRange
  | parse (error : SyntaxError)
  | combine (error : CombineError)
  | evaluate (error : EvalError)
  | readContext (error : Json.TextError Context.ShapeFault)
  | decodeJson (error : Json.TextError ExchangeTree.Refusal)
  | evaluateJson (error : Json.TextError ExchangeTree.EvaluationError)
  | encode (error : Blob.PayloadTooLarge)
  | decode (error : Blob.Error)

abbrev Outcome := Except Failure (Session × Reply)

def push (session : Session) (rule : Rule) : Session × Reply :=
  ({ session with stack := rule :: session.stack }, .rule rule)

def withContext (session : Session) (context : Context) : Session × Reply :=
  ({ session with context := context }, .number context.size)

def withBytes (session : Session) (bytes : List UInt8) : Session × Reply :=
  ({ session with bytes := bytes }, .number bytes.length)

def onTop (session : Session) (next : Rule → List Rule → Outcome) : Outcome :=
  match session.stack with
  | top :: rest => next top rest
  | [] => .error .shortStack

def onTopTwo (session : Session) (next : Rule → Rule → List Rule → Outcome) : Outcome :=
  match session.stack with
  | top :: below :: rest => next below top rest
  | _ => .error .shortStack

def step (session : Session) : Step → Outcome
  | .setLimits limits => .ok ({ session with limits := limits }, .number limits.maxDepth)
  | .setField name value => .ok (session.withContext (session.context.insert name value))
  | .getField name => .ok (session, .field (session.context.get? name))
  | .setContext context => .ok (session.withContext context)
  | .readContext json => do
      let context ← (Context.ofText json).mapError .readContext
      return session.withContext context
  | .showContext => .ok (session, .context session.context)
  | .pushTest comparison => .ok (session.push (.test comparison))
  | .pushParsed source => do
      let rule ← (Rule.parse session.limits source).mapError .parse
      return session.push rule
  | .join connective => session.onTopTwo fun below top rest =>
      .ok (({ session with stack := rest } : Session).push (.join connective below top))
  | .combine connective count texts =>
      if session.stack.length < count then .error .shortStack
      else do
        let sources := (session.stack.take count).reverse.map .tree ++ texts.map .text
        let rule ← (Rule.combine session.limits connective sources).mapError .combine
        return session.push rule
  | .duplicate => session.onTop fun top _ => .ok (session.push top)
  | .drop => session.onTop fun _ rest => .ok ({ session with stack := rest }, .nothing)
  | .swap => session.onTopTwo fun below top rest =>
      .ok ({ session with stack := below :: top :: rest }, .rule below)
  | .compareTop => session.onTopTwo fun below top _ => .ok (session, .truth (below.same top))
  | .evaluate => session.onTop fun top _ => do
      let value ← (top.evaluate session.context).mapError .evaluate
      return (session, .truth value)
  | .writeJson => session.onTop fun top _ =>
      .ok ({ session with json := top.jsonText }, .text top.jsonText)
  | .setJson json => .ok ({ session with json := json }, .nothing)
  | .decodeJson => do
      let rule ← (ExchangeTree.decode session.limits session.json).mapError .decodeJson
      return session.push rule
  | .evaluateJson => do
      let value ← (ExchangeTree.evaluateText session.limits session.json session.context).mapError
        .evaluateJson
      return (session, .truth value)
  | .encode source => session.onTop fun top _ => do
      let bytes ← (Blob.encode top source).mapError .encode
      return ({ session with bytes := bytes }, .bytes bytes)
  | .pokeByte index byte =>
      if index < session.bytes.length then .ok (session.withBytes (session.bytes.set index byte))
      else .error .indexOutOfRange
  | .truncate size => .ok (session.withBytes (session.bytes.take size))
  | .appendBytes bytes => .ok (session.withBytes (session.bytes ++ bytes))
  | .decode expected => do
      let rule ← (Blob.decode session.limits expected session.bytes).mapError .decode
      return session.push rule

def run (session : Session) : List Step → List (Except Failure Reply × Nat)
  | [] => []
  | first :: rest =>
      match session.step first with
      | .ok (next, reply) => (.ok reply, next.stack.length) :: next.run rest
      | .error failure => (.error failure, session.stack.length) :: session.run rest

end Session

end FieldRules
