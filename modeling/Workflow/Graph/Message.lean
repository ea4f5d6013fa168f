import Workflow.Error

/-!
# Messages about a graph

A message is a text in which values are shown.  Where one of them holds an integer
of too many digits there is no such text, and writing the message fails.
-/

namespace Workflow

structure Message where
  text : String
  /-- the values that stand in the text -/
  shown : List Value
  deriving DecidableEq, Repr

/-- A value in running text. -/
def Value.message (v : Value) : Message := ⟨v.bare, [v]⟩

namespace Message

instance : Coe String Message := ⟨fun s => ⟨s, []⟩⟩

instance : Append Message := ⟨fun m n => ⟨m.text ++ n.text, m.shown ++ n.shown⟩⟩

def isWritable (m : Message) : Bool := m.shown.all Value.isWritable

/-- The text of a message. -/
def write (m : Message) : Except Error String :=
  if m.isWritable then .ok m.text else .error (.faulty .unwritable)

/-- The texts of messages that are written one after the other. -/
def writeAll (ms : List Message) : Except Error (List String) := ms.mapM write

end Message

end Workflow
