/-
  What is found under the name of a member.

  Arrays have a length and methods, which cannot be replaced, and any other properties that were
  stored; strings have methods only.  A method is made anew, bound to its receiver, whenever it is
  asked for, and `stamp` is to tell it apart from all others.
-/
import Tao.Heap.Basic

namespace Tao

/-- Is this the name of the length or of a method, which no property of an array can have? -/
def isOwnMember (key : String) : Bool := key = "length" || (ArrayMethod.ofName? key).isSome

namespace Heap

/-- The member of an array under a string key; nil if there is none. -/
def memberOfArray (heap : Heap) (stamp : Nat) (id : ArrayId) (key : String) :
    Except RuntimeError Value := do
  let cell ← heap.array id
  if key = "length" then
    return .number (Int64.ofNat cell.elements.size)
  match ArrayMethod.ofName? key with
  | some method => return .builtin (.arrayMethod stamp method id)
  | none => return (cell.props.get? key).getD .nil

/-- Makes the object that is bound to `global` at the beginning of a run. -/
def addGlobal (heap : Heap) : Heap × ObjectId :=
  let props : Props :=
    [ ("print", .builtin .print), ("println", .builtin .println), ("len", .builtin .len),
      ("Object", .maker .object), ("Array", .maker .array) ].foldl
      (fun props (key, value) => Props.set key value props) []
  heap.addObject ⟨props⟩

end Heap

/-- The member of a string under a string key; nil if there is none. -/
def memberOfString (stamp : Nat) (receiver key : String) : Value :=
  match StringMethod.ofName? key with
  | some method => .builtin (.stringMethod stamp method receiver)
  | none => .nil

/-- The character of a string at an index, as a string. -/
def charAt (text : String) (index : Int64) : Except RuntimeError Value :=
  match if index < 0 then none else text.toList[index.toInt.toNat]? with
  | some c => .ok (.string c.toString)
  | none => .error (.indexOutOfRange index text.length)

end Tao
