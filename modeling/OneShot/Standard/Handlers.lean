import OneShot.Handling

/-!
# The standard handlers

Each function makes the table of one effect, together with the live store or list if there is
one. Mappings that are given are copied, so a later change of them is not seen.
-/

namespace OneShot.World

variable {L : Language}

/-- The entries of a mapping that may be left out. -/
def givenEntries (host : Host (World L)) (bound : Nat) (v : Value) :
    Exec (World L) (Assoc Value) := do
  if ← Exec.read fun w => w.isGiven v then entriesOf host bound v else return []

/-- The table of the state handlers and their store, which starts with the given entries. -/
def stateHandlers (host : Host (World L)) (bound : Nat) (initial : Value) :
    Exec (World L) Value := do
  let entries ← givenEntries host bound initial
  let id ← Exec.alter (takeIds 3)
  let dict ← Exec.read fun w => w.dicts.next
  let live ← Exec.alter (addDict entries)
  let table ← writeTable [(.str "state",
    [(.str "get", .native id (.stateGet dict)),
      (.str "put", .native (id + 1) (.statePut dict)),
      (.str "modify", .native (id + 2) (.stateModify dict))])]
  newTuple [table, live]

/-- The table of the writer handlers and the live list of messages. -/
def writerHandlers : Exec (World L) Value := do
  let id ← Exec.alter (takeIds 2)
  let messages ← Exec.read fun w => w.lists.next
  let live ← Exec.alter (addList [])
  let table ← writeTable [(.str "writer",
    [(.str "tell", .native id (.writerTell messages)),
      (.str "listen", .native (id + 1) (.writerListen messages))])]
  newTuple [table, live]

def readerHandlers (host : Host (World L)) (bound : Nat) (environment : Value) :
    Exec (World L) Value := do
  let entries ← givenEntries host bound environment
  let id ← Exec.alter (takeIds 1)
  writeTable (singleTable "reader" "ask" (.native id (.readerAsk entries)))

/-- The failure handlers raise what is thrown. -/
def failureHandlers : Exec (World L) Value := do
  let id ← Exec.alter (takeIds 1)
  writeTable (singleTable "failure" "throw" (.native id .throwRaise))

/-- Runs a source with overrides in front of the environment around it. -/
def shadow (host : Host (World L)) (bound : Nat) (overrides source : Value) :
    Exec (World L) Value := do
  let entries ← entriesOf host bound overrides
  handleOperation host source "reader" "ask" (.localAsk entries)

/-- Completes with `recover` of the first error that the source throws. -/
def recovering (host : Host (World L)) (source recover : Value) : Exec (World L) Value :=
  handleOperation host source "failure" "throw" (.throwAbort recover)

end OneShot.World
