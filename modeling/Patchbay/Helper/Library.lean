import Patchbay.Helper.Catalogue

/-!
The helper code that nodes call, as seven units.
-/
namespace Patchbay.Helper

/-- Triggers. -/
def bangLines : List String := [
  "function msg_isBang(m) \x7b",
  "    return msg_getLength(m) === 1",
  "        && msg_isStringToken(m, 0)",
  "        && msg_readStringToken(m, 0) === \"bang\"",
  "\x7d",
  "function msg_bang() \x7b",
  "    return msg_fromAtoms([\"bang\"])",
  "\x7d"]

/-- Access to the atoms of a message. -/
def tokenLines : List String := [
  "function msg_readAtom(m, i) \x7b",
  "    return msg_isFloatToken(m, i) ? msg_readFloatToken(m, i) : msg_readStringToken(m, i)",
  "\x7d",
  "function msg_atomToString(m, i) \x7b",
  "    return msg_isFloatToken(m, i) ? String(msg_readFloatToken(m, i)) : msg_readStringToken(m, i)",
  "\x7d",
  "function msg_fromAtoms(atoms) \x7b",
  "    const m = msg_create(atoms.map(a => typeof a === \"number\"" ++
    " ? MSG_FLOAT_TOKEN : [MSG_STRING_TOKEN, a.length]))",
  "    atoms.forEach((a, i) => typeof a === \"number\"" ++
    " ? msg_writeFloatToken(m, i, a) : msg_writeStringToken(m, i, a))",
  "    return m",
  "\x7d",
  "function msg_floats(values) \x7b",
  "    return msg_fromAtoms(values)",
  "\x7d"]

/-- Templates at work: evaluation, and reading one from a message. -/
def templateLines : List String := [
  "function tpl_evaluate(template, m) \x7b",
  "    const atoms = []",
  "    for (const segment of template) \x7b",
  "        if (segment.t !== \"p\") \x7b",
  "            atoms.push(segment.v)",
  "            continue",
  "        \x7d",
  "        if (segment.v.length === 1 && typeof segment.v[0] === \"number\") \x7b",
  "            if (segment.v[0] > msg_getLength(m)) \x7b return null \x7d",
  "            atoms.push(msg_readAtom(m, segment.v[0] - 1))",
  "            continue",
  "        \x7d",
  "        let text = \"\"",
  "        for (const piece of segment.v) \x7b",
  "            if (typeof piece === \"number\") \x7b",
  "                if (piece > msg_getLength(m)) \x7b return null \x7d",
  "                text += msg_atomToString(m, piece - 1)",
  "            \x7d else \x7b",
  "                text += piece",
  "            \x7d",
  "        \x7d",
  "        atoms.push(text)",
  "    \x7d",
  "    return msg_fromAtoms(atoms)",
  "\x7d",
  "function tpl_parseSymbol(s) \x7b",
  "    const pieces = []",
  "    const re = /\\\\\\$|\\$(\\d*)/g",
  "    let last = 0, text = \"\", match",
  "    while ((match = re.exec(s)) !== null) \x7b",
  "        text += s.slice(last, match.index)",
  "        last = re.lastIndex",
  "        if (match[0] === \"\\\\$\") \x7b text += \"$\"; continue \x7d",
  "        const index = match[1].length ? Number(match[1]) : NaN",
  "        if (!Number.isSafeInteger(index) || index < 1) \x7b return null \x7d",
  "        if (text.length) \x7b pieces.push(text); text = \"\" \x7d",
  "        pieces.push(index)",
  "    \x7d",
  "    text += s.slice(last)",
  "    if (!pieces.length) \x7b return \x7b t: \"s\", v: text \x7d \x7d",
  "    if (text.length) \x7b pieces.push(text) \x7d",
  "    return \x7b t: \"p\", v: pieces \x7d",
  "\x7d",
  "function tpl_fromMessage(m, start) \x7b",
  "    const template = []",
  "    if (msg_getLength(m) > start && msg_isStringToken(m, start)" ++
    " && msg_readStringToken(m, start) === \"symbol\") \x7b",
  "        const next = start + 1",
  "        if (msg_getLength(m) > next && msg_isStringToken(m, next)) \x7b",
  "            const segment = tpl_parseSymbol(msg_readStringToken(m, next))",
  "            return segment === null ? null : [segment]",
  "        \x7d",
  "        return [\x7b t: \"s\", v: \"\" \x7d]",
  "    \x7d",
  "    for (let i = start; i < msg_getLength(m); i++) \x7b",
  "        if (msg_isFloatToken(m, i)) \x7b",
  "            template.push(\x7b t: \"f\", v: msg_readFloatToken(m, i) \x7d)",
  "        \x7d else \x7b",
  "            const segment = tpl_parseSymbol(msg_readStringToken(m, i))",
  "            if (segment === null) \x7b return null \x7d",
  "            template.push(segment)",
  "        \x7d",
  "    \x7d",
  "    return template",
  "\x7d"]

/-- MIDI note to frequency. -/
def noteLines : List String := [
  "function mtof(note) \x7b",
  "    if (note <= -1500) \x7b return 0 \x7d",
  "    else if (note > 1499) \x7b return mtof(1499) \x7d",
  "    else \x7b return 8.17579891564 * Math.exp(0.0577622650 * note) \x7d",
  "\x7d"]

/-- Frequency to MIDI note. -/
def frequencyLines : List String := [
  "function ftom(freq) \x7b",
  "    return freq > 0 ? 17.3123405046 * Math.log(0.12231220585 * freq) : -1500",
  "\x7d"]

/-- Named arrays, and who is told when one changes. -/
def arrayLines (floatArray : String) : List String := [
  "const commons_ARRAYS = new Map()",
  "const commons_ARRAYS_CHANGES = new Map()",
  "function commons_getArray(name) \x7b",
  "    return commons_ARRAYS.has(name) ? commons_ARRAYS.get(name) : new " ++ floatArray ++ "(0)",
  "\x7d",
  "function commons_setArray(name, array) \x7b",
  "    commons_ARRAYS.set(name, array)",
  "    for (const callback of commons_ARRAYS_CHANGES.get(name) || []) \x7b callback() \x7d",
  "\x7d",
  "function commons_subscribeArrayChanges(name, callback) \x7b",
  "    if (!commons_ARRAYS_CHANGES.has(name)) \x7b commons_ARRAYS_CHANGES.set(name, []) \x7d",
  "    commons_ARRAYS_CHANGES.get(name).push(callback)",
  "    if (commons_ARRAYS.has(name)) \x7b callback() \x7d",
  "    return callback",
  "\x7d",
  "function commons_cancelArrayChangesSubscription(name, callback) \x7b",
  "    const callbacks = commons_ARRAYS_CHANGES.get(name) || []",
  "    const i = callbacks.indexOf(callback)",
  "    if (i !== -1) \x7b callbacks.splice(i, 1) \x7d",
  "\x7d"]

/-- What waits until the engine is configured. -/
def engineLines : List String := [
  "const commons_ENGINE_CONFIGURED = []",
  "function commons_waitEngineConfigure(callback) \x7b",
  "    commons_ENGINE_CONFIGURED.push(callback)",
  "\x7d",
  "function commons_configureEngine() \x7b",
  "    commons_ENGINE_CONFIGURED.splice(0).forEach(callback => callback())",
  "\x7d"]

inductive Builtin where
  | bang
  | tokens
  | templates
  | noteToFrequency
  | frequencyToNote
  | arrays
  | engineConfigured
  deriving DecidableEq, Repr

namespace Builtin

def all : List Builtin :=
  [bang, tokens, templates, noteToFrequency, frequencyToNote, arrays, engineConfigured]

def name : Builtin → String
  | bang => "bangUtils"
  | tokens => "tokenUtils"
  | templates => "msgTemplates"
  | noteToFrequency => "mtof"
  | frequencyToNote => "ftom"
  | arrays => "commonsArrays"
  | engineConfigured => "commonsWaitEngineConfigure"

def needs : Builtin → List Builtin
  | templates => [tokens]
  | _ => []

def lines (settings : Settings) : Builtin → List String
  | bang => bangLines
  | tokens => tokenLines
  | templates => templateLines
  | noteToFrequency => noteLines
  | frequencyToNote => frequencyLines
  | arrays => arrayLines settings.bitDepth.floatArray
  | engineConfigured => engineLines

def body (b : Builtin) (settings : Settings) : Code :=
  .raw ("\n".intercalate (b.lines settings))

def unit (b : Builtin) : HelperUnit Builtin := ⟨b.name, b.needs, b.body⟩

def ofName? (s : String) : Option Builtin := all.find? (·.name = s)

theorem mem_all (b : Builtin) : b ∈ all := by cases b <;> decide

end Builtin

/-- The builtin units. -/
def library : Catalogue Builtin where
  unit := Builtin.unit
  names := Builtin.all.map Builtin.name
  name_mem b := List.mem_map_of_mem b.mem_all

/-- The builtin units together with `n` further ones, which may need each other and them. -/
def extended {n : Nat} (units : Fin n → HelperUnit (Fin n ⊕ Builtin)) :
    Catalogue (Fin n ⊕ Builtin) where
  unit
    | .inl i => units i
    | .inr b => ⟨b.name, b.needs.map .inr, b.body⟩
  names := (List.finRange n).map (fun i => (units i).name) ++ Builtin.all.map Builtin.name
  name_mem
    | .inl i => List.mem_append_left _ (List.mem_map_of_mem (List.mem_finRange i))
    | .inr b => List.mem_append_right _ (List.mem_map_of_mem b.mem_all)

end Patchbay.Helper
