import EffectTree.Files
import EffectTree.LineReader
import EffectTree.Resolution.Render
import EffectTree.Settings
import EffectTree.Store.Cells
import EffectTree.Store.Results

/-!
# The context of a handler

What a handler of a custom effect is given besides its arguments: the state of the evaluation that
calls it. Handlers of the host look at all of it and ask for changes; handlers that are written as
expressions see only its text.
-/

namespace EffectTree.Evaluation

/-- Why an evaluation stops: a fault, an exit, or a wait for a line that never comes. -/
inductive Stop where
  | fault (cause : Fault)
  | exit (code : Int)
  | waiting

/-- The texts of what a context holds and no effect changes. -/
structure Fixtures where
  analyzer : String := "<DescriptorAnalyzer>"
  environ : String := "\x7b\x7d"
  output : String := "None"
  diagnostics : String := "None"
  input : String := "<LineReader>"
  entry : String := "None"
  registry : String := "<CustomEffectRegistry>"

/-- Everything but the handlers themselves, of which only the names are to be seen. -/
structure Context where
  resolver : Resolver
  results : Store.Results
  cells : Store.Cells
  issued : Nat
  effects : List Value
  settings : Settings
  argv : List String
  environ : Table String
  input : LineReader
  files : Files
  depth : Nat
  fixtures : Fixtures

/-- The text of a context spells out its settings and arguments and tells how many results and cells
there are. -/
def Context.text (c : Context) : String :=
  "EvaluationContext(analyzer=" ++ c.fixtures.analyzer ++ ", config=" ++ c.settings.shown ++
    ", argv=" ++ Value.shown (.ofList (c.argv.map .ofStr)) ++ ", environ=" ++ c.fixtures.environ ++
    ", stdout=" ++ c.fixtures.output ++ ", stderr=" ++ c.fixtures.diagnostics ++
    ", input=" ++ c.fixtures.input ++ ", entry_point=" ++ c.fixtures.entry ++
    ", refs=" ++ c.cells.summary ++ ", registry=" ++ c.fixtures.registry ++
    ", results=" ++ c.results.summary ++ ", depth=" ++ toString c.depth ++ ")"

/-- What a handler of the host asks for. A line that it reads is taken from the input whatever its
time limit is. -/
inductive Request where
  | output (text : String)
  | diagnostic (text : String)
  | addResult (d : Descriptor)
  | addCell (d : Descriptor)
  | setCell (key : Value) (d : Descriptor)
  | deleteCell (key : Value)
  | define (name source : Value)
  | readLine
  | files (files : Files)

end EffectTree.Evaluation
