/-
  Places: what can be stored to.

  A place is a name, or a target with a key, both already evaluated.  Loading from a place and
  storing to it agree on what the place is.
-/
import Tao.Evaluator.Basic
import Tao.Tree.Outline

namespace Tao

/-- What can stand left of `=`, its parts evaluated. -/
inductive Place where
  | name (text : String)
  | slot (target key : Value)

/-- The value under a key of a target. -/
def loadSlot (target key : Value) : Eval Value :=
  match target, key with
  | .object id, .string key => Eval.read fun heap => do
    return ((← heap.object id).props.get? key).getD .nil
  | .array id, .number index => Eval.read fun heap => do (← heap.array id).get index
  | .array id, .string key => do
    let stamp ← Eval.freshStamp
    Eval.read (·.memberOfArray stamp id key)
  | .string text, .number index => Eval.read fun _ => charAt text index
  | .string text, .string key => do return memberOfString (← Eval.freshStamp) text key
  | .object _, key | .array _, key | .string _, key => fail (.badKey key.type)
  | other, _ => fail (.notIndexable other.type)

/-- Puts a value under a key of a target. -/
def storeSlot (target key value : Value) : Eval Unit :=
  match target, key with
  | .object id, .string key => Eval.store (Store.putProp id key value)
  | .array id, .number index => Eval.store (Store.setElement id index value)
  | .array id, .string key =>
    if isOwnMember key then fail (.notAssignable ("array." ++ key))
    else Eval.store (Store.putArrayProp id key value)
  | .string _, _ => fail (.notAssignable "string")
  | .object _, key | .array _, key => fail (.badKey key.type)
  | other, _ => fail (.notIndexable other.type)

namespace Place

/-- The value at a place. -/
def load : Place → Eval Value
  | .name text => do
    let scope ← Eval.activeScope
    Eval.read (·.valueOf scope text)
  | .slot target key => loadSlot target key

/-- Puts a value at a place. -/
def store (value : Value) : Place → Eval Unit
  | .name text => do
    let scope ← Eval.activeScope
    Eval.store (Store.assign scope text value)
  | .slot target key => storeSlot target key value

end Place

namespace Evaluator

/-- Evaluates the parts of an expression that stands left of `=`, each once. -/
def place (k : Evaluator) : Expression → Eval Place
  | .name text => pure (.name text)
  | .index target key => do
    let target ← k.evaluate target
    let key ← k.evaluate key
    return .slot target key
  | other => fail (.notAssignable other.outline)

end Evaluator

end Tao
