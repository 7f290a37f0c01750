import Nameless.Message.Messenger

/-!
# Sessions

A messenger is called again and again, and in between the verbosity may be changed. A session is
the list of these requests. What came of each call is kept with the call and with the verbosity that
was in force at that moment.
-/

namespace Nameless

/-- A call of a messenger. -/
inductive Call (Arg : Type := Template.Arg) where
  /-- A message with a tag and a severity of its own. -/
  | message (msg : Message Arg)
  | error (span : Option Span) (kind text : String)
  | warning (template : String) (args : List Arg)
  | debug (template : String) (args : List Arg)
  | report (fault : Fault)

/-- What is asked of a messenger. -/
inductive Request (Arg : Type := Template.Arg) where
  | call (c : Call Arg)
  /-- The verbosity is changed. -/
  | verbosity (n : Int)

/-- A call, the verbosity in force at that moment, and what came of it. -/
structure Attempt (Arg : Type := Template.Arg) (Err : Type := Template.Error) where
  call : Call Arg
  verbosity : Int
  delivery : Delivery Err

variable {Arg Err : Type}

/-- The message that a call sends. -/
def Call.sent (F : Template.Filling Arg Err) : Call Arg → Message Arg
  | message msg => msg
  | error span kind text => .errorBy F span kind text
  | warning template args => .warning template args
  | debug template args => .debug template args
  | report fault => .ofFaultBy F fault

namespace Messenger

/-- Serves one request: what came of it, if it was a call, and the messenger afterwards. -/
def serve (F : Template.Filling Arg Err) (m : Messenger) :
    Request Arg → Option (Attempt Arg Err) × Messenger
  | .call c => (some ⟨c, m.verbosity, m.sendBy F (c.sent F)⟩, m)
  | .verbosity n => (none, { m with verbosity := n })

/-- Serves the requests of a session one after the other. -/
def run (F : Template.Filling Arg Err) (m : Messenger) :
    List (Request Arg) → List (Attempt Arg Err) × Messenger
  | [] => ([], m)
  | request :: rest =>
    let (attempt, after) := m.serve F request
    let (attempts, final) := after.run F rest
    (attempt.toList ++ attempts, final)

end Messenger

end Nameless
