import EffectTree.Registry
import EffectTree.Store.Key

/-!
# The world of an evaluation

Everything that evaluating effects can read and change, and the machine on it: an evaluation ends
with a value, or it stops with a fault or an exit or waits for ever; in each case it leaves a world
behind.
-/

namespace EffectTree.Evaluation

structure World where
  resolver : Resolver := {}
  results : Store.Results := {}
  cells : Store.Cells := {}
  /-- The number of keys issued so far. -/
  issued : Nat := 0
  registry : Registry := {}
  settings : Settings := {}
  argv : List String := []
  environ : Table String := []
  input : LineReader := LineReader.ofText ""
  files : Files := {}
  transcript : Transcript := {}
  /-- How many effects are being evaluated inside each other. -/
  depth : Nat := 0
  fixtures : Fixtures := {}

abbrev Machine := EStateM Stop World

namespace World

def note (w : World) (e : Event) : World := { w with transcript := w.transcript.add e }

def log (w : World) (r : LogRecord) : World := w.note (.log r)

/-- The first of the numbers from the given one on whose key names no result, if it is found within
some tries. -/
def unusedFrom (results : Store.Results) : Nat → Nat → Nat
  | 0, n => n
  | tries + 1, n =>
    if results.has (.ofStr (Store.keyText n)) then unusedFrom results tries (n + 1) else n

/-- The number of the next key that names no result; there are no more keys to pass over than
results. -/
def nextUnused (w : World) : Nat := unusedFrom w.results w.results.size (w.issued + 1)

/-- Adds a result under a new key, with a slot in which resolution finds it. -/
def addResult (w : World) (d : Descriptor) : String × World :=
  let key := Store.keyText w.nextUnused
  (key, { w with
    issued := w.nextUnused
    results := w.results.add key d
    resolver := { w.resolver with slots := w.resolver.slots.put key (Store.Results.slot d) } })

def addCell (w : World) (d : Descriptor) : String × World :=
  let key := Store.keyText (w.issued + 1)
  (key, { w with issued := w.issued + 1, cells := w.cells.put (.ofStr key) d })

/-- What a handler sees of the world. -/
def context (w : World) : Context where
  resolver := w.resolver
  results := w.results
  cells := w.cells
  issued := w.issued
  effects := w.registry.names
  settings := w.settings
  argv := w.argv
  environ := w.environ
  input := w.input
  files := w.files
  depth := w.depth
  fixtures := w.fixtures

def changeCells (w : World) : Except Fault Store.Cells → World
  | .ok cells => { w with cells }
  | .error _ => w

def changeRegistry (w : World) : Except Fault (Registry × List LogRecord) → World
  | .ok (registry, records) => { w with registry, transcript := w.transcript.addRecords records }
  | .error _ => w

/-- Does what a handler asks for; a request that cannot be fulfilled changes nothing. -/
def fulfil (w : World) : Request → World
  | .output text => w.note (.output text)
  | .diagnostic text => w.note (.diagnostic text)
  | .addResult d => (w.addResult d).2
  | .addCell d => (w.addCell d).2
  | .setCell key d => w.changeCells (w.cells.set key d)
  | .deleteCell key => w.changeCells ((w.cells.delete key).map (·.2))
  | .define name source => w.changeRegistry (w.registry.define name source)
  | .readLine => { w with input := (w.input.read w.settings.timeout).2 }
  | .files files => { w with files }

def close (w : World) : World :=
  let w := { w with input := w.input.close }
  w.log ⟨.debug, .context, "Context closed with " ++ toString w.results.size ++ " results and " ++
    toString w.cells.size ++ " refs"⟩

end World

namespace Machine

variable {α : Type}

def fail (cause : Fault) : Machine α := throw (.fault cause)

def lift : Except Fault α → Machine α
  | .ok a => pure a
  | .error e => fail e

/-- Goes on with an answer or stops as it says. -/
def accept : Except Stop α → Machine α
  | .ok a => pure a
  | .error cause => throw cause

def resolve (question : Resolver → Except Fault α) : Machine α := do
  lift (question (← get).resolver)

def note (e : Event) : Machine Unit := modify (·.note e)

def log (level : Level) (channel : Channel) (message : String) : Machine Unit :=
  note (.log ⟨level, channel, message⟩)

def store (d : Descriptor) : Machine String := modifyGet (·.addResult d)

/-- The value of a descriptor, null if it is not literal. -/
def literal (d : Descriptor) : Machine Value := resolve (·.literalValue d)

def literalOf (d? : Option Descriptor) : Machine Value :=
  match d? with
  | none => pure .null
  | some d => literal d

/-- The text of a descriptor, or the bare tag of an effect without arguments. -/
def render (d : Descriptor) : Machine Value := resolve (·.render d)

/-- Runs one level further down and comes back up, however it ends. -/
def nested (m : Machine α) : Machine α := fun w =>
  match m { w with depth := w.depth + 1 } with
  | .ok a w' => .ok a { w' with depth := w'.depth - 1 }
  | .error stop w' => .error stop { w' with depth := w'.depth - 1 }

/-- Goes on after a fault; an exit is not held up, and a wait goes on for ever. -/
def orElseFault (m : Machine α) (recover : Fault → Machine α) : Machine α := fun w =>
  match m w with
  | .ok a w' => .ok a w'
  | .error (.fault e) w' => recover e w'
  | .error cause w' => .error cause w'

end Machine

end EffectTree.Evaluation
