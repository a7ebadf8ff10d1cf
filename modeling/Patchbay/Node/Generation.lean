import Patchbay.Node.Basic
import Patchbay.Template.Literal

/-!
What a node adds to the emitted program: state variables, declarations, and either a loop body or
one receiver for each message inlet.
-/
namespace Patchbay

inductive Behaviour where
  /-- Runs once for each sample. -/
  | loop (body : Code)
  /-- One function for each message inlet, by inlet. -/
  | receivers (byInlet : List (Nat × Code))

/-- Several lines of code. -/
def Code.ofLines (ls : List String) : Code := .raw ("\n".intercalate ls)

def Code.receiver (ls : List String) : Code := .function none [Names.message] (.ofLines ls)

namespace Table

def indexCode (index : String) : String := s!"Math.trunc({index})"

/-- Holds when `index` is a cell of `array`. -/
def inRangeCode (index array : String) : String :=
  s!"{index} >= 0 && {index} < {array}.length"

def stateVariables (declared : String) : List StateVariable :=
  [⟨"array", .floatArray, .emptyFloatArray⟩,
    ⟨"arrayName", .string, .text declared⟩,
    ⟨"arrayChangesSubscription", .integer, .integer (-1)⟩]

/-- The function that binds another array, and the binding of the first one as soon as the engine
is configured. -/
def declarations (settings : Settings) (names : Names) : Except Fault Code := do
  let array ← names.state "array"
  let arrayName ← names.state "arrayName"
  let subscription ← names.state "arrayChangesSubscription"
  let setArrayName := names.own "setArrayName"
  let floatArray := settings.bitDepth.floatArray
  return .block [
    .function (some setArrayName) ["arrayName"] (.ofLines [
      s!"                if ({subscription} !== -1) \x7b",
      "                    commons_cancelArrayChangesSubscription(" ++
        s!"{arrayName}, {subscription})",
      "                \x7d",
      s!"                {arrayName} = arrayName",
      s!"                {array} = new {floatArray}(0)",
      s!"                {subscription} = " ++
        "commons_subscribeArrayChanges(arrayName, () => \x7b",
      s!"                    {array} = commons_getArray({arrayName})",
      "                \x7d)"]),
    .ofLines [
      "            commons_waitEngineConfigure(() => \x7b",
      s!"                if ({arrayName}.length) \x7b",
      s!"                    {setArrayName}({arrayName})",
      "                \x7d",
      "            \x7d)"]]

/-- The branch that takes `set <name>`. -/
def setArrayLines (names : Names) : List String :=
  let setArrayName := names.own "setArrayName"
  ["\x7d else if (msg_isMatching(m, [MSG_STRING_TOKEN, MSG_STRING_TOKEN])",
    "    && msg_readStringToken(m, 0) === \"set\") \x7b",
    s!"    {setArrayName}(msg_readStringToken(m, 1))",
    "    return",
    "\x7d"]

end Table

namespace Node

def stateVariables : Node → List StateVariable
  | message declared _ => [⟨"templates", .templateSet, .expression declared.literal⟩]
  | tableWrite declared _ =>
    Table.stateVariables declared ++ [⟨"index", .integer, .integer 0⟩]
  | tableRead declared _ => Table.stateVariables declared
  | sampleRate | func _ => []

/-- The helper units that the code of the node calls. -/
def needs : Node → List Helper.Builtin
  | message .. => [.templates]
  | tableWrite .. => [.engineConfigured, .arrays]
  | tableRead .. => [.engineConfigured, .arrays, .tokens]
  | sampleRate => [.bang, .tokens]
  | func f => f.needs

def declarations (settings : Settings) (names : Names) : Node → Except Fault (Option Code)
  | tableWrite .. => do
    let base ← Table.declarations settings names
    let index ← names.state "index"
    let prepared := Table.indexCode "index"
    return some (.block [base,
      .function (some (names.own "setIndex")) ["index"] (.raw s!"{index} = {prepared}")])
  | tableRead .. => return some (← Table.declarations settings names)
  | _ => .ok none

/-- Replaces the templates on `set`, and otherwise sends what they evaluate to. -/
def messageReceiver (names : Names) : Except Fault Code := do
  let templates ← names.state "templates"
  return .receiver [
    "if (msg_getLength(m) > 0 && msg_isStringToken(m, 0)" ++
      " && msg_readStringToken(m, 0) === \"set\") \x7b",
    "    const template = tpl_fromMessage(m, 1)",
    "    if (template !== null) \x7b",
    s!"        {templates} = [template]",
    "    \x7d",
    "    return",
    "\x7d",
    s!"for (const template of {templates}) \x7b",
    "    const out = tpl_evaluate(template, m)",
    "    if (out !== null) \x7b",
    s!"        {names.sender 0}(out)",
    "    \x7d",
    "\x7d",
    "return"]

def writeReceivers (names : Names) : Except Fault (List (Nat × Code)) := do
  let array ← names.state "array"
  let index ← names.state "index"
  let inRange := Table.inRangeCode index array
  let setIndex := names.own "setIndex"
  return [
    (0, .receiver ([
      "if (msg_isMatching(m, [MSG_FLOAT_TOKEN])) \x7b",
      s!"    if ({array}.length === 0 || !({inRange})) \x7b",
      "        return",
      "    \x7d",
      s!"    {array}[{index}] = msg_readFloatToken(m, 0)",
      "    return"] ++ Table.setArrayLines names)),
    (1, .receiver [
      "if (msg_isMatching(m, [MSG_FLOAT_TOKEN])) \x7b",
      s!"    {setIndex}(msg_readFloatToken(m, 0))",
      "    return",
      "\x7d"])]

def readReceiver (names : Names) : Except Fault Code := do
  let array ← names.state "array"
  let index := Table.indexCode "msg_readFloatToken(m, 0)"
  let inRange := Table.inRangeCode "index" array
  let send := names.sender 0
  return .receiver ([
    "if (msg_isMatching(m, [MSG_FLOAT_TOKEN])) \x7b",
    s!"    const index = {index}",
    s!"    {send}(msg_floats([{inRange} ? {array}[index] : 0]))",
    "    return"] ++ Table.setArrayLines names)

def rateReceiver (names : Names) : Code :=
  .receiver [
    s!"if (msg_isBang({Names.message})) \x7b",
    s!"    {names.sender 0}(msg_floats([{Names.sampleRate}]))",
    "    return",
    "\x7d"]

def generate (names : Names) : Node → Except Fault Behaviour
  | message .. => return .receivers [(0, ← messageReceiver names)]
  | tableWrite .. => return .receivers (← writeReceivers names)
  | tableRead .. => return .receivers [(0, ← readReceiver names)]
  | sampleRate => return .receivers [(0, rateReceiver names)]
  | func f => return .loop (.raw s!"{names.output 0} = {f.expression (names.input 0)}")

end Node

end Patchbay
