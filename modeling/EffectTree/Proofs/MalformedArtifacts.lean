import EffectTree.CommandLine.Report
import EffectTree.Descriptor.Identity
import EffectTree.Proofs.RoundTrip

/-!
# Malformed artifacts

A document that does not describe a program is refused with a fault of the artifact, and a command
line that is given one ends with the status for misuse. The exception are intersections of numbers,
truth values and null: the parts are asked for without looking at what has them, so the fault says
that the value has no items.
-/
namespace EffectTree

namespace Artifact

def HasDefinitions (members : List (Value × Value)) (values : List Value) : Prop :=
  (member? "definitions" members = none ∧ values = []) ∨
    ∃ es mark, member? "definitions" members = some (.dict es mark) ∧ values = es.map (·.2)

/-- The values that are decoded in a document: those of its definitions, then its entry. -/
inductive Holds (entry : String) : Value → List Value → Prop
  | intro {members : List (Value × Value)} {mark : Mark} {definitions : List Value} {root : Value}
      (hentry : member? entry members = some root)
      (hdefinitions : HasDefinitions members definitions) :
      Holds entry (.dict members mark) (definitions ++ [root])

def WellFormedDocument (entry : String) (document : Value) : Prop :=
  ∃ values, Holds entry document values ∧ ∀ v ∈ values, WellFormed v

/-- A document in which the first value that does not describe anything is misreported. -/
def MisreportedDocument (payload : Value) (entry : String) (document : Value) : Prop :=
  ∃ values, Holds entry document values ∧ MisreportedIn payload values

/-- The values of a document are decoded first to last and then put together. -/
theorem Holds.ofDocument_eq {entry : String} {document : Value} {values : List Value}
    (h : Holds entry document values) (path : String) :
    ∃ build : List Descriptor → Artifact, ofDocument path entry document =
      (values.mapM decode).map build := by
  obtain @⟨members, mark, definitions, root, hentry, hdefinitions⟩ := h
  rcases hdefinitions with ⟨hnone, rfl⟩ | ⟨es, mark', hsome, rfl⟩
  · refine ⟨fun ds => ⟨path, ds.getLast?.getD .unknown, []⟩, ?_⟩
    simp only [ofDocument, hentry, hnone, pure_bind, List.nil_append, List.mapM_cons, List.mapM_nil]
    cases decode root <;> rfl
  · refine ⟨fun ds => ⟨path, ds.getLast?.getD .unknown, named es ds.dropLast⟩, ?_⟩
    simp only [ofDocument, hentry, hsome, decodeFields_eq, List.mapM_append, List.mapM_cons,
      List.mapM_nil]
    cases (es.map (·.2)).mapM decode with
    | error e => rfl
    | ok ds => cases decode root <;> simp [Except.map, bind, Except.bind, pure, Except.pure]

/-- A document without the values of a program is refused with a fault of the artifact. -/
theorem ofDocument_of_not_holds {entry : String} {document : Value} (path : String)
    (h : ∀ values, ¬ Holds entry document values) :
    ∃ e, ofDocument path entry document = .error e ∧ e.kind.isArtifact = true := by
  cases document with
  | dict members mark =>
    cases hentry : member? entry members with
    | none => exact ⟨.missingEntry path entry, by simp only [ofDocument, hentry]; rfl, rfl⟩
    | some root =>
      cases hdefinitions : member? "definitions" members with
      | none => exact absurd (.intro hentry (.inl ⟨hdefinitions, rfl⟩)) (h _)
      | some v =>
        cases v with
        | dict es mark' => exact absurd (.intro hentry (.inr ⟨es, mark', hdefinitions, rfl⟩)) (h _)
        | _ => exact ⟨_, by simp only [ofDocument, hentry, hdefinitions]; rfl, rfl⟩
  | _ => exact ⟨_, rfl, rfl⟩

theorem WellFormedDocument.loads {entry : String} {document : Value}
    (h : WellFormedDocument entry document) (path : String) :
    ∃ a, ofDocument path entry document = .ok a := by
  obtain ⟨values, hholds, hwell⟩ := h
  obtain ⟨build, hbuild⟩ := hholds.ofDocument_eq path
  obtain ⟨ds, hds⟩ := Except.exists_mapM_eq_ok.mpr fun v hv => (hwell v hv).decodes
  exact ⟨build ds, by rw [hbuild, hds]; rfl⟩

theorem MisreportedDocument.ofDocument_eq {payload document : Value} {entry : String}
    (h : MisreportedDocument payload entry document) (path : String) :
    ofDocument path entry document = .error (.notIterable payload) := by
  obtain ⟨values, hholds, hmis⟩ := h
  obtain ⟨build, hbuild⟩ := hholds.ofDocument_eq path
  rw [hbuild, hmis.mapM_eq]
  rfl

theorem ofDocument_cases (path entry : String) (document : Value) :
    WellFormedDocument entry document ∨
      (∃ e, ofDocument path entry document = .error e ∧ e.kind.isArtifact = true) ∨
      ∃ payload, MisreportedDocument payload entry document := by
  by_cases hholds : ∃ values, Holds entry document values
  · obtain ⟨values, hholds⟩ := hholds
    rcases decided_parts fun v (_ : v ∈ values) =>
      decided v with hwell | ⟨text, htext⟩ | ⟨payload, hmis⟩
    · exact .inl ⟨values, hholds, hwell⟩
    · obtain ⟨build, hbuild⟩ := hholds.ofDocument_eq path
      exact .inr (.inl ⟨.artifact text, by rw [hbuild, htext]; rfl, rfl⟩)
    · exact .inr (.inr ⟨payload, values, hholds, hmis⟩)
  · exact .inr (.inl (ofDocument_of_not_holds path fun values hvalues => hholds ⟨values, hvalues⟩))

theorem ofDocument_loads_iff (path entry : String) (document : Value) :
    (∃ a, ofDocument path entry document = .ok a) ↔ WellFormedDocument entry document := by
  refine ⟨fun ⟨a, ha⟩ => ?_, fun h => h.loads path⟩
  rcases ofDocument_cases path entry document with hwell | ⟨e, he, -⟩ | ⟨payload, hmis⟩
  · exact hwell
  · cases ha.symm.trans he
  · cases ha.symm.trans (hmis.ofDocument_eq path)

theorem exists_of_readDocument {files : Files} {p : FilePath} {document : Value}
    (h : readDocument files p = .ok document) : files.exists? p = .ok true := by
  rw [readDocument, Files.readText] at h
  rw [Files.exists?]
  cases hfind : files.find p with
  | ok node => rfl
  | error problem =>
    simp only [hfind] at h
    split at h
    · cases h
    · rename_i hread
      split at hread
      · cases hread
      · split at hread <;> cases hread

theorem readDocument_eq_of_same {files : Files} {p : FilePath} {document : Value}
    (h : (readDocument files p).toOption.elim false document.same = true) :
    readDocument files p = .ok document := by
  cases hread : readDocument files p with
  | error e =>
    rw [hread] at h
    cases h
  | ok document' =>
    rw [hread] at h
    rw [(Value.same_iff document document').mp h]

theorem parse_name : FilePath.parse "p" = ⟨false, ["p"]⟩ := by cbv

/-- Whether a path names a document, which is read and not executed. -/
def IsDocument (files : Files) (path : String) : Prop :=
  isModule ((FilePath.parse path).resolved files.root) = false

theorem load_eq_ofDocument {files : Files} {path : String} {document : Value}
    (hpath : IsDocument files path) (h : readDocument files (.parse path) = .ok document)
    (modules : Modules) (entry : String) :
    load files modules path entry =
      ofDocument ((FilePath.parse path).resolved files.root) entry document := by
  have hread : load files modules path entry =
      if isModule ((FilePath.parse path).resolved files.root) then
        loadModule modules ((FilePath.parse path).resolved files.root) entry
      else ofDocument ((FilePath.parse path).resolved files.root) entry document := by
    simp only [load, exists_of_readDocument h, h]
    rfl
  rw [hread, hpath, if_neg Bool.false_ne_true]

end Artifact

namespace Settings

/-- A value with a property, or a fault of something invalid. -/
def GivesOrInvalid {α : Type} (P : α → Prop) (r : Except Fault α) : Prop :=
  (∃ a, r = .ok a ∧ P a) ∨ ∃ text, r = .error (.invalid text)

theorem GivesOrInvalid.bind {α β : Type} {P : α → Prop} {Q : β → Prop} {r : Except Fault α}
    {f : α → Except Fault β} (h : GivesOrInvalid P r) (hf : ∀ a, P a → GivesOrInvalid Q (f a)) :
    GivesOrInvalid Q (r >>= f) := by
  rcases h with ⟨a, rfl, ha⟩ | ⟨text, rfl⟩
  · exact hf a ha
  · exact .inr ⟨text, rfl⟩

def IsDepth (v : Value) : Prop := ∃ i, v = .ofInt i

def IsTimeout (v : Value) : Prop := v = .null ∨ ∃ x, v = .ofFloat x

/-- Settings as they come from the environment and from options: the limits are numbers. -/
structure Numeric (s : Settings) : Prop where
  maxDepth : IsDepth s.maxDepth
  timeout : IsTimeout s.timeout

theorem depthOf_gives (s : String) : GivesOrInvalid IsDepth (depthOf s) := by
  rw [depthOf]
  split
  · exact .inl ⟨_, rfl, _, rfl⟩
  · exact .inr ⟨_, rfl⟩

theorem timeoutOf_gives (s : String) : GivesOrInvalid IsTimeout (timeoutOf s) := by
  rw [timeoutOf]
  split
  · exact .inl ⟨_, rfl, .inr ⟨_, rfl⟩⟩
  · exact .inr ⟨_, rfl⟩

theorem Numeric.check {s : Settings} (h : s.Numeric) : GivesOrInvalid Numeric s.check := by
  obtain ⟨strict, maxDepth, timeout⟩ := s
  obtain ⟨⟨i, rfl⟩, htimeout⟩ := h
  rw [Settings.check]
  simp only [Value.ofInt, Value.related, Value.real?]
  generalize (Value.Real.compare _ _).any _ = low
  cases low with
  | true => exact .inr ⟨_, rfl⟩
  | false =>
    rcases htimeout with rfl | ⟨x, rfl⟩
    · exact .inl ⟨_, rfl, ⟨i, rfl⟩, .inl rfl⟩
    · simp only [Value.related, Value.real?]
      generalize (Value.Real.compare _ _).any _ = short
      cases short with
      | true => exact .inr ⟨_, rfl⟩
      | false => exact .inl ⟨_, rfl, ⟨i, rfl⟩, .inr ⟨x, rfl⟩⟩

theorem ofEnviron_gives (environ : Table String) : GivesOrInvalid Numeric (ofEnviron environ) := by
  have hchecked (depth : Value) (hdepth : IsDepth depth) (timeout : Value)
      (htimeout : IsTimeout timeout) :
      GivesOrInvalid Numeric (check ⟨.bool (isOn environ "TYEFF_STRICT"), depth, timeout⟩) :=
    Numeric.check ⟨hdepth, htimeout⟩
  have hnull : IsTimeout .null := .inl rfl
  rw [ofEnviron]
  cases given? environ "TYEFF_MAX_DEPTH" <;> cases given? environ "TYEFF_READLINE_TIMEOUT"
  · exact hchecked _ ⟨200, rfl⟩ _ hnull
  · exact (timeoutOf_gives _).bind (hchecked _ ⟨200, rfl⟩)
  · exact (depthOf_gives _).bind fun depth hdepth => hchecked depth hdepth _ hnull
  · exact (depthOf_gives _).bind fun depth hdepth =>
      (timeoutOf_gives _).bind (hchecked depth hdepth)

end Settings

namespace CommandLine

open Artifact Settings

theorem settingsFor_gives (c : Choices) (environ : Table String) :
    GivesOrInvalid Numeric (settingsFor c environ) := by
  refine (ofEnviron_gives environ).bind fun s hs => ?_
  have hstrict : GivesOrInvalid Numeric (Settings.check { s with strict := .bool true }) :=
    Numeric.check ⟨hs.maxDepth, hs.timeout⟩
  have hlimited (limit : Int) (s : Settings) (hs : s.Numeric) :
      GivesOrInvalid Numeric (Settings.check { s with maxDepth := .ofInt limit }) :=
    Numeric.check ⟨⟨limit, rfl⟩, hs.timeout⟩
  cases c.strict <;> cases c.maxDepth
  · exact .inl ⟨s, rfl, hs⟩
  · exact hlimited _ s hs
  · exact hstrict.bind fun s hs => .inl ⟨s, rfl, hs⟩
  · exact hstrict.bind (hlimited _)

theorem settingsFor_error {c : Choices} {environ : Table String} {e : Fault}
    (h : settingsFor c environ = .error e) :
    e.kind.isInvalid = true := by
  rcases settingsFor_gives c environ with ⟨s, hs, -⟩ | ⟨text, htext⟩
  · cases h.symm.trans hs
  · cases h.symm.trans htext
    rfl

def Command.path : Command → String
  | .run path _ => path
  | .present path => path

def Unsettled (c : Choices) (command : Command) (s : Surroundings) : Prop :=
  (∃ path args, command = .run path args) ∧ ∃ e, settingsFor c s.environ = .error e

section Execution

variable {args : List String} {c : Choices} {command : Command} {s : Surroundings} {e : Fault}

theorem execute_of_unsettled (hparse : parse args = .ok (c, command)) (h : Unsettled c command s) :
    (execute args s).ending = .exit misuseStatus := by
  obtain ⟨⟨path, rest, rfl⟩, e, he⟩ := h
  simp only [execute, hparse, runCommand, he, settingsFor_error he, Bool.or_true, if_true]

theorem execute_of_load_error (hparse : parse args = .ok (c, command))
    (hsettled : ¬ Unsettled c command s)
    (hload : load s.files s.modules command.path entryName = .error e) :
    (execute args s).ending = if e.kind.isArtifact || e.kind.isInvalid then .exit misuseStatus
    else .fault e := by
  cases command with
  | run path rest =>
    cases hsettings : settingsFor c s.environ with
    | error e' => exact absurd ⟨⟨path, rest, rfl⟩, e', hsettings⟩ hsettled
    | ok settings =>
      rw [Command.path] at hload
      simp only [execute, hparse, runCommand, hsettings, Invocation.run, hload]
      split <;> rfl
  | present path =>
    rw [Command.path] at hload
    simp only [execute, hparse, presentCommand, hload]
    split <;> rfl

end Execution

end CommandLine

namespace Artifact

open CommandLine

/-- An outcome that is a value or a fault of the artifact. -/
def Reported {α : Type} (r : Except Fault α) : Prop :=
  (∃ a, r = .ok a) ∨ ∃ e, r = .error e ∧ e.kind.isArtifact = true

theorem not_reported_of_notIterable {α : Type} {r : Except Fault α} {payload : Value}
    (h : r = .error (.notIterable payload)) : ¬ Reported r := by
  rintro (⟨a, ha⟩ | ⟨e, he, hkind⟩)
  · cases h.symm.trans ha
  · cases h.symm.trans he
    cases hkind

theorem reported_decode_iff (v : Value) :
    Reported (decode v) ↔ ¬ ∃ payload, Misreported payload v := by
  constructor
  · rintro h ⟨payload, hmis⟩
    exact not_reported_of_notIterable hmis.decode_eq h
  · intro h
    rcases decided v with hwell | ⟨text, htext⟩ | hmis
    · exact .inl hwell.decodes
    · exact .inr ⟨.artifact text, htext, rfl⟩
    · exact absurd hmis h

theorem reported_ofDocument_iff (path entry : String) (document : Value) :
    Reported (ofDocument path entry document) ↔
      ¬ ∃ payload, MisreportedDocument payload entry document := by
  constructor
  · rintro h ⟨payload, hmis⟩
    exact not_reported_of_notIterable (hmis.ofDocument_eq path) h
  · intro h
    rcases ofDocument_cases path entry document with hwell | herror | hmis
    · exact .inl (hwell.loads path)
    · exact .inr herror
    · exact absurd hmis h

/-- What a command line answers for a document that describes no program. -/
theorem execute_malformed {args : List String} {c : Choices} {command : Command} {s : Surroundings}
    {document : Value} (hparse : parse args = .ok (c, command))
    (hpath : IsDocument s.files command.path)
    (hread : readDocument s.files (.parse command.path) = .ok document)
    (hmalformed : ¬ WellFormedDocument entryName document) :
    (execute args s).ending = .exit misuseStatus ↔
      Unsettled c command s ∨ ¬ ∃ payload, MisreportedDocument payload entryName document := by
  by_cases hsettled : Unsettled c command s
  · exact ⟨fun _ => .inl hsettled, fun _ => execute_of_unsettled hparse hsettled⟩
  have hload := load_eq_ofDocument hpath hread s.modules entryName
  rcases ofDocument_cases ((FilePath.parse command.path).resolved s.files.root) entryName document
    with hwell | ⟨e, he, hkind⟩ | ⟨payload, hmis⟩
  · exact absurd hwell hmalformed
  · rw [execute_of_load_error hparse hsettled (hload.trans he), hkind, Bool.true_or, if_pos rfl]
    refine ⟨fun _ => .inr ?_, fun _ => rfl⟩
    rw [← reported_ofDocument_iff ((FilePath.parse command.path).resolved s.files.root)]
    exact .inr ⟨e, he, hkind⟩
  · rw [execute_of_load_error hparse hsettled (hload.trans (hmis.ofDocument_eq _))]
    constructor
    · intro h
      cases h
    · rintro (h | h)
      · exact absurd h hsettled
      · exact absurd ⟨payload, hmis⟩ h

/-- A value is read or refused with a fault of the artifact, by itself and as a document that is
loaded or run, just if an intersection of what has no items is not the first of all that is wrong in
it. -/
theorem malformed_reported_iff (v : Value) :
    (((∃ d, decode v = .ok d) ↔ WellFormed v) ∧
      (Reported (decode v) ↔ ¬ ∃ payload, Misreported payload v)) ∧
    (∀ (files : Files) (modules : Modules) (path entry : String),
      IsDocument files path → readDocument files (.parse path) = .ok v →
        ((∃ a, load files modules path entry = .ok a) ↔ WellFormedDocument entry v) ∧
        (Reported (load files modules path entry) ↔
          ¬ ∃ payload, MisreportedDocument payload entry v)) ∧
    ∀ (args : List String) (c : Choices) (command : Command) (s : Surroundings),
      parse args = .ok (c, command) → IsDocument s.files command.path →
      readDocument s.files (.parse command.path) = .ok v → ¬ WellFormedDocument entryName v →
        ((execute args s).ending = .exit misuseStatus ↔
          Unsettled c command s ∨ ¬ ∃ payload, MisreportedDocument payload entryName v) := by
  refine ⟨⟨decodes_iff, reported_decode_iff v⟩, fun files modules path entry hpath hread => ?_,
    fun args c command s => execute_malformed⟩
  rw [load_eq_ofDocument hpath hread]
  exact ⟨ofDocument_loads_iff _ _ _, reported_ofDocument_iff _ _ _⟩

/-- An artifact whose entry is an intersection of a number. -/
def wrongParts : Files :=
  { nodes := [(["p"], .file (Text.utf8Encode "\x7b\"main\": \x7b\"$and\": 5\x7d\x7d"))] }

def wrongEntry : Value := .dict [memberOf "$and" (.ofInt 5)] (.placed 1)

def wrongDocument : Value := .dict [memberOf "main" wrongEntry] (.placed 0)

theorem readDocument_wrongParts : readDocument wrongParts (.parse "p") = .ok wrongDocument := by
  rw [parse_name]
  exact readDocument_eq_of_same (by decide +kernel)

theorem isDocument_wrongParts : IsDocument wrongParts "p" := by
  rw [IsDocument, parse_name]
  decide +kernel

theorem wrongEntry_misreported : Misreported (.ofInt 5) wrongEntry :=
  .here (.intro (by simp [specialKeys_memberOf]) (by simp) rfl)

theorem wrongDocument_misreported : MisreportedDocument (.ofInt 5) entryName wrongDocument :=
  ⟨[wrongEntry], .intro (by simp [entryName]) (.inl ⟨by simp, rfl⟩), [], wrongEntry, [],
    rfl, by simp,
    wrongEntry_misreported⟩

/-- The program that runs it ends with the fault that a number has no items, not with the status for
misuse. -/
theorem wrongParts_not_reported :
    ¬ Reported (decode wrongEntry) ∧ ¬ Reported (load wrongParts .none "p" entryName) ∧
      (execute ["run", "p"] { files := wrongParts }).ending ≠ .exit misuseStatus := by
  obtain ⟨⟨-, hentry⟩, -⟩ := malformed_reported_iff wrongEntry
  obtain ⟨-, hfiles, hcommands⟩ := malformed_reported_iff wrongDocument
  obtain ⟨hloads, hreported⟩ :=
    hfiles wrongParts .none "p" entryName isDocument_wrongParts readDocument_wrongParts
  have hmalformed : ¬ WellFormedDocument entryName wrongDocument := by
    rw [← hloads, load_eq_ofDocument isDocument_wrongParts readDocument_wrongParts,
      wrongDocument_misreported.ofDocument_eq]
    rintro ⟨a, ha⟩
    cases ha
  have hends := hcommands ["run", "p"] {} (.run "p" []) { files := wrongParts }
    rfl isDocument_wrongParts
    readDocument_wrongParts hmalformed
  refine ⟨fun h => hentry.mp h ⟨_, wrongEntry_misreported⟩,
    fun h => hreported.mp h ⟨_, wrongDocument_misreported⟩,
    fun h => ?_⟩
  rcases hends.mp h with ⟨-, e, he⟩ | h
  · cases he
  · exact h ⟨_, wrongDocument_misreported⟩

/-- An intersection of a number is a JSON value that is neither decoded nor refused with a fault of
the artifact. -/
theorem number_intersection_not_reported :
    ¬ ∀ v : Value, v.IsJson → (∃ d, decode v = .ok d) ∨ ∃ e, decode v = .error e ∧
      e.kind.isArtifact = true := by
  intro h
  exact not_reported_of_notIterable wrongEntry_misreported.decode_eq
    (h wrongEntry (isJson_object [("$and", .ofInt 5)] _ (by simp) (by simpa using .int 5 _)))

end Artifact

end EffectTree
