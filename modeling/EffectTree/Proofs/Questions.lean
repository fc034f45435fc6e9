import EffectTree.Proofs.GrowingResolution
import EffectTree.Proofs.SteadyEffects

/-!
# Questions on the way

The head, the value and the text of a descriptor are found by asking about other descriptors. One
question leads to others, and effects, nodes and continuations begin with some. Which these are
depends on what resolution finds.
-/
namespace EffectTree

/-- What can be asked about a descriptor. -/
inductive Question where
  | head (d : Descriptor)
  | value (d : Descriptor)
  | text (d : Descriptor)

namespace Resolution

/-- The operands whose values an operator needs: a conditional needs that of its condition only. -/
def operands (name : Value) (args : List Descriptor) : List Descriptor :=
  match name with
  | .str "if" _ => args.take 1
  | _ => args

/-- The parts of a head that are written with it. -/
def written : Descriptor → List Descriptor
  | .tuple items => items
  | .record fields => fields.map (·.2)
  | .effect _ args => args
  | .op _ args => args
  | _ => []

end Resolution

namespace Resolver

open Resolution

/-- To answer the one question the other one is asked. -/
inductive Leads (r : Resolver) : Question → Question → Prop
  | step {d d' : Descriptor} (h : step r r.head d = .ok (.next d')) : r.Leads (.head d) (.head d')
  | target (target : Descriptor) (field : Value) (mark : Mark) :
      r.Leads (.head (.index target field mark)) (.head target)
  | part {d : Descriptor} {parts : List Descriptor} (h : d ∈ parts) :
      r.Leads (.head (.inter parts)) (.head d)
  | operand {d : Descriptor} {name : Value} {args : List Descriptor} (h : d ∈ operands name args) :
      r.Leads (.head (.op name args)) (.value d)
  | found (d : Descriptor) : r.Leads (.value d) (.head d)
  | item {d item : Descriptor} {items : List Descriptor} (hd : r.head d = .ok (.tuple items))
      (h : item ∈ items) : r.Leads (.value d) (.value item)
  | field {d : Descriptor} {fields : List (String × Descriptor)} {entry : String × Descriptor}
      (hd : r.head d = .ok (.record fields)) (h : entry ∈ fields) :
      r.Leads (.value d) (.value (.index (.record fields) (.ofStr entry.1) .fresh))
  | shown (d : Descriptor) : r.Leads (.text d) (.head d)
  | within {d head part : Descriptor} (hd : r.head d = .ok head) (h : part ∈ written head) :
      r.Leads (.text d) (.text part)

/-- What the heads of some parts merge to. -/
def merged (r : Resolver) (parts : List Descriptor) : Except Fault Descriptor :=
  parts.foldlM (fun merged part => (r.head part).map (merge merged)) .unknown

end Resolver

namespace Evaluation

/-- A literal text is its own text, what is not needs to be written. -/
def textQuestions (r : Resolver) (d : Descriptor) : List Question :=
  match r.literalValue d with
  | .error _ | .ok (.str ..) => [.value d]
  | .ok _ => [.value d, .text d]

/-- An argument of a custom effect that has no value is given as its text. -/
def argumentQuestions (r : Resolver) (d : Descriptor) : List Question :=
  match r.literalValue d with
  | .ok .null => [.value d, .text d]
  | _ => [.value d]

/-- What a leaf effect asks about its arguments. -/
def Leaf.questions (r : Resolver) (args : List Descriptor) : Leaf → List Question
  | .produce | .createCell | .readLine | .arguments => []
  | .raise => (args[0]?).toList.flatMap fun d => [.value d, .text d]
  | .readCell | .writeCell | .deleteCell | .environment | .exit | .expression =>
      (args[0]?).toList.map .value
  | .define => (args[0]?).toList.map .value ++ (args[1]?).toList.map .value
  | .print => args.map .text
  | .putString | .readFile => (args[0]?).toList.flatMap (textQuestions r)
  | .debug => (args[0]?).toList.flatMap (textQuestions r) ++ (args[1]?).toList.map .text
  | .writeFile =>
      (args[0]?).toList.flatMap (textQuestions r) ++ (args[1]?).toList.flatMap (textQuestions r)

/-- What an effect asks about its arguments, or about the node itself if nobody handles it. -/
def effectQuestions (w : World) (node : Descriptor) (tag : Value) (args : List Descriptor) :
    List Question :=
  match Opcode.ofTag? tag with
  | some (.leaf effect) => effect.questions w.resolver args
  | some (.control .gather) | some (.control .block) => (args[0]?).toList.map .head
  | some (.control _) => []
  | none => match w.registry.has tag with
      | .ok true => args.flatMap (argumentQuestions w.resolver)
      | .ok false => [.text node]
      | .error _ => []

/-- What a continuation is given for a key. -/
def inputOf (key? : Option String) : Descriptor :=
  key?.elim (.literal .null) fun key => Store.Results.reference (.ofStr key)

/-- What is asked to hand an input over to a continuation. The continuation is stored with its input
before what it returns is asked for. -/
inductive World.AsksToHandOver (w : World) (c x : Descriptor) : Resolver → Question → Prop
  | resolving : w.AsksToHandOver c x w.resolver (.head (.inter [c, .record [("input", x)]]))
  | resolved {d : Descriptor} (hd : w.resolver.specialize c [("input", x)] = .ok d) :
      w.AsksToHandOver c x (w.addResult d).2.resolver (.head d)
  | returned {d head part : Descriptor} (hd : w.resolver.specialize c [("input", x)] = .ok d)
      (hhead : (w.addResult d).2.resolver.head d = .ok head)
      (hpart : Resolution.project head (.ofStr "return") = .ok (some part)) :
      w.AsksToHandOver c x (w.addResult d).2.resolver (.head part)
  | unreturned {d : Descriptor} (hd : w.resolver.specialize c [("input", x)] = .ok d)
      (hnext : (w.addResult d).2.resolver.projectField d (.ofStr "return") = .ok none) :
      w.AsksToHandOver c x (w.addResult d).2.resolver (.text d)

namespace State

/-- A state goes on with a continuation for some input. -/
inductive HandsOver (s : State) (continuation : Descriptor) : Descriptor → Prop
  | result {key? : Option String} {frames : List Frame} (hfocus : s.focus = .finish key?)
      (hframes : s.frames = .feed (some continuation) :: frames) :
      s.HandsOver continuation (inputOf key?)
  | fault {e : Fault} {frames : List Frame} (hfocus : s.focus = .stop (.fault e))
      (hframes : s.frames = .rescue (some continuation) :: frames) :
      s.HandsOver continuation (.literal (.ofStr e.message))

/-- What a state asks in its next step, and the resolver that it asks. -/
inductive Poses (s : State) : Resolver → Question → Prop
  | node {node : Descriptor} (hfocus : s.focus = .evaluate node) :
      s.Poses s.world.resolver (.head node)
  | effect {node : Descriptor} {tag : Value} {args : List Descriptor} {q : Question}
      (hfocus : s.focus = .perform node tag args) (hq : q ∈ effectQuestions s.world node tag args) :
      s.Poses s.world.resolver q
  | continuation {c x : Descriptor} {r : Resolver} {q : Question} (h : s.HandsOver c x)
      (hq : s.world.AsksToHandOver c x r q) : s.Poses r q

end State

end Evaluation

end EffectTree
