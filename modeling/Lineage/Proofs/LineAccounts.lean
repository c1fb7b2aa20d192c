import Lineage.Proofs.TellingLines

/-!
# Every line is accounted for once

A line that says something brings in a section, stores an entry or is reported, and does only one
of the three (`Reading.takes_readLine`). A line that says nothing changes nothing. So the lines that
say something are as many as the sections that were brought in, the entries that were stored and the
reports together, and the numbers in the reports go up (`Sections.read_accounts`). A report says
that a line was passed over, unless it says that a header names a section that was there: such a
header is not counted at all.

The induction is over the lines from the first to the last. Its invariant (`Reading.Accounts`) is
what the counts and the reports say about the lines read so far.
-/

namespace Lineage

/-- The number of the line that an event names. -/
def Event.line? (e : Event) : Option Nat :=
  match e.fields.lookup "line" with
  | some (.count n) => some n
  | _ => none

/-- Whether a report of reading says that its line was passed over. -/
def Event.passesOver (e : Event) : Bool := e.message ≠ "Section re-declared"

namespace Lines

/-- The line of this number, counted from one, says something. -/
def TellsAt (raws : List Text) (n : Nat) : Prop :=
  ∃ i raw, n = 1 + i ∧ raws[i]? = some raw ∧ telling [raw] ≠ []

namespace TellsAt

variable {raws : List Text} {raw : Text} {n : Nat}

theorem lt (h : TellsAt raws n) : n < 1 + raws.length := by
  obtain ⟨i, raw, rfl, hraw, -⟩ := h
  have hi := (List.getElem?_eq_some_iff.1 hraw).1
  omega

theorem append (h : TellsAt raws n) (more : List Text) : TellsAt (raws ++ more) n := by
  obtain ⟨i, raw, rfl, hraw, htelling⟩ := h
  have hi := (List.getElem?_eq_some_iff.1 hraw).1
  exact ⟨i, raw, rfl, by rw [List.getElem?_append_left hi, hraw], htelling⟩

theorem last (raws : List Text) (h : telling [raw] ≠ []) :
    TellsAt (raws ++ [raw]) (1 + raws.length) :=
  ⟨raws.length, raw, rfl, List.getElem?_concat_length, h⟩

end TellsAt

end Lines

namespace Reading

/-! ## One line -/

/-- What comes of the line of a number, if it says something: what is added to the counts, and what
is reported. -/
inductive Outcome (n : Nat) : Summary → List Event → Prop
  /-- A section is brought in. -/
  | declares : Outcome n { sections := 1 } []
  /-- An entry is stored. -/
  | stores : Outcome n { entries := 1 } []
  /-- The line is reported, and counted if it is passed over. -/
  | reports {e : Event} : e.level = .trace → e.line? = some n →
      Outcome n { ignored := if e.passesOver then 1 else 0 } [e]

namespace Outcome

variable {n : Nat} {added : Summary} {reports : List Event} (h : Outcome n added reports)

include h

theorem counts_once : added.sections + added.entries + reports.length = 1 := by
  cases h <;> rfl

theorem ignored_eq : added.ignored = (reports.filter Event.passesOver).length := by
  cases h with
  | declares => rfl
  | stores => rfl
  | @reports e _ _ =>
    rw [List.filter_singleton]
    cases e.passesOver <;> rfl

theorem level_eq : ∀ e ∈ reports, e.level = .trace := by
  cases h with
  | declares => exact nofun
  | stores => exact nofun
  | reports hlevel _ => exact List.forall_mem_singleton.2 hlevel

end Outcome

/-- A line of this number takes a reading to another one. -/
def Takes (n : Nat) (r r' : Reading) : Prop :=
  ∃ added reports, Outcome n added reports ∧
    r'.sections.size = r.sections.size + added.sections ∧
    r'.summary = r.summary + added ∧ r'.events.toList = r.events.toList ++ reports

theorem takes_of_report {r r' : Reading} {n : Nat} {e : Event} (hlevel : e.level = .trace)
    (hline : e.line? = some n) (hsections : r'.sections = r.sections)
    (hsummary : r'.summary = r.summary + { ignored := if e.passesOver then 1 else 0 })
    (hevents : r'.events = r.events.push e) : Takes n r r' :=
  ⟨_, _, .reports hlevel hline, by rw [hsections]; rfl, hsummary,
    by rw [hevents, Array.toList_push]⟩

theorem takes_readHeader (r : Reading) (n : Nat) (h : Header) : Takes n r (r.readHeader n h) := by
  unfold readHeader
  split
  · exact takes_of_report (e := .sectionDeclaredAgain n h.name) rfl rfl rfl rfl rfl
  · rename_i hnew
    refine ⟨_, _, .declares, ?_, rfl, (List.append_nil _).symm⟩
    rw [OrderedMap.size_insert, if_neg hnew]

theorem takes_readEntry {r : Reading} {name : Text} {s : Section}
    (hs : r.sections.get? name = some s) (n : Nat) (e : Entry) :
    Takes n r (r.readEntry name s e) := by
  have hthere : r.sections.contains name = true := by
    rw [OrderedMap.contains, hs, Option.isSome_some]
  refine ⟨_, _, .stores, ?_, rfl, (List.append_nil _).symm⟩
  rw [readEntry, OrderedMap.size_insert, if_pos hthere]
  rfl

theorem takes_readLine (r : Reading) (n : Nat) {l : Line} (hl : l ≠ .silent) :
    Takes n r (r.readLine n l) := by
  cases l with
  | silent => exact absurd rfl hl
  | header o =>
    cases o with
    | none => exact takes_of_report (e := .headerWithoutName n) rfl rfl rfl rfl rfl
    | some h => exact takes_readHeader r n h
  | content o =>
    unfold readLine
    dsimp only
    split
    · exact takes_of_report (e := .lineOutsideSections n) rfl rfl rfl rfl rfl
    · exact takes_of_report (e := .lineNotUnderstood n) rfl rfl rfl rfl rfl
    · rename_i name s e hcurrent
      exact takes_readEntry (currentSection?_eq_some_iff.1 hcurrent).2 n e

/-! ## All lines -/

/-- The reports name lines that say something, one after another. -/
def NamesLines (raws : List Text) (events : List Event) : Prop :=
  ∃ numbers : List Nat, events.map Event.line? = numbers.map some ∧
    numbers.Pairwise (· < ·) ∧ ∀ n ∈ numbers, Lines.TellsAt raws n

namespace NamesLines

variable {raws : List Text} {events : List Event}

theorem nil : NamesLines [] [] := ⟨[], rfl, .nil, nofun⟩

theorem append (h : NamesLines raws events) (more : List Text) :
    NamesLines (raws ++ more) events := by
  obtain ⟨numbers, hmap, hsorted, htells⟩ := h
  exact ⟨numbers, hmap, hsorted, fun n hn => (htells n hn).append more⟩

/-- The line that is reported comes after all that were read. -/
theorem concat (h : NamesLines raws events) {raw : Text} (hraw : Lines.telling [raw] ≠ [])
    {e : Event} (he : e.line? = some (1 + raws.length)) :
    NamesLines (raws ++ [raw]) (events ++ [e]) := by
  obtain ⟨numbers, hmap, hsorted, htells⟩ := h
  refine ⟨numbers ++ [1 + raws.length], ?_, ?_, ?_⟩
  · rw [List.map_append, List.map_append, hmap, List.map_singleton, List.map_singleton, he]
  · rw [List.pairwise_append]
    refine ⟨hsorted, List.pairwise_singleton _ _, ?_⟩
    intro n hn m hm
    rw [List.mem_singleton.1 hm]
    exact (htells n hn).lt
  · intro n hn
    rcases List.mem_append.1 hn with hn | hn
    · exact (htells n hn).append [raw]
    · rw [List.mem_singleton.1 hn]
      exact Lines.TellsAt.last raws hraw

theorem outcome (h : NamesLines raws events) {raw : Text} (hraw : Lines.telling [raw] ≠ [])
    {added : Summary} {reports : List Event} (hout : Outcome (1 + raws.length) added reports) :
    NamesLines (raws ++ [raw]) (events ++ reports) := by
  cases hout with
  | declares =>
    rw [List.append_nil]
    exact h.append [raw]
  | stores =>
    rw [List.append_nil]
    exact h.append [raw]
  | reports _ hline => exact h.concat hraw hline

end NamesLines

/-- The counts and the reports of a reading that began with some sections account for the lines. -/
structure Accounts (before : Sections) (raws : List Text) (r : Reading) : Prop where
  size_eq : r.sections.size = before.size + r.summary.sections
  length_eq : (Lines.telling raws).length =
    r.summary.sections + r.summary.entries + r.events.toList.length
  ignored_eq : r.summary.ignored = (r.events.toList.filter Event.passesOver).length
  level_eq : ∀ e ∈ r.events.toList, e.level = .trace
  namesLines : NamesLines raws r.events.toList

namespace Accounts

variable {before : Sections} {raws : List Text} {raw : Text} {r r' : Reading}

theorem nil (m : Sections) : Accounts m [] { sections := m } :=
  ⟨rfl, rfl, rfl, nofun, .nil⟩

variable (h : Accounts before raws r)

include h

theorem silent (hraw : Lines.telling [raw] = []) : Accounts before (raws ++ [raw]) r where
  size_eq := h.size_eq
  length_eq := by
    rw [Lines.telling_append, hraw, List.append_nil]
    exact h.length_eq
  ignored_eq := h.ignored_eq
  level_eq := h.level_eq
  namesLines := h.namesLines.append [raw]

theorem takes {l : Text} (hraw : Lines.telling [raw] = [l])
    (htakes : Takes (1 + raws.length) r r') : Accounts before (raws ++ [raw]) r' := by
  obtain ⟨added, reports, hout, hsections, hsummary, hevents⟩ := htakes
  have hlength : (Lines.telling (raws ++ [raw])).length = (Lines.telling raws).length + 1 := by
    rw [Lines.telling_append, hraw, List.length_append, List.length_singleton]
  constructor
  · rw [hsections, hsummary, h.size_eq, Summary.sections_add, Nat.add_assoc]
  · have honce := hout.counts_once
    rw [hlength, h.length_eq, hsummary, hevents, Summary.sections_add, Summary.entries_add,
      List.length_append]
    omega
  · rw [hsummary, hevents, Summary.ignored_add, h.ignored_eq, hout.ignored_eq, List.filter_append,
      List.length_append]
  · rw [hevents]
    exact List.forall_mem_append.2 ⟨h.level_eq, hout.level_eq⟩
  · rw [hevents]
    exact h.namesLines.outcome (by rw [hraw]; exact List.cons_ne_nil l []) hout

theorem readLine (raw : Text) :
    Accounts before (raws ++ [raw]) (r.readLine (1 + raws.length) (Line.parse raw)) := by
  rcases Line.parse_cases raw with ⟨htelling, hparse⟩ | ⟨l, htelling, hparse⟩
  · rw [hparse]
    exact h.silent htelling
  · have hsays : Line.parse raw ≠ .silent := by
      rcases hparse with ⟨-, hparse⟩ | ⟨-, hparse⟩
      · rw [hparse]
        exact nofun
      · rw [hparse]
        exact nofun
    exact h.takes htelling (takes_readLine r _ hsays)

end Accounts

theorem accounts_readLines (m : Sections) (raws : List Text) :
    Accounts m raws (readLines { sections := m } (raws.zipIdx 1)) := by
  induction raws using List.reverseRecOn with
  | nil => exact Accounts.nil m
  | append_singleton raws raw ih =>
    rw [List.zipIdx_append, readLines_append]
    exact ih.readLine raw

end Reading

/-- All lines that say something are accounted for: by the sections that came to those that were
there before, by the entries, and by the traces, each of which names a line of its own. A line is
passed over exactly if a trace says so. -/
theorem Sections.read_accounts (m : Sections) (text : Text) :
    let r := m.read text
    let traces := r.events.toList.filter (fun e => e.level = .trace)
    r.sections.size = m.size + r.summary.sections ∧
      (Lines.telling text.lines).length =
        r.summary.sections + r.summary.entries + traces.length ∧
      r.summary.ignored =
        (traces.filter (fun e => e.message ≠ "Section re-declared")).length ∧
      ∃ numbers : List Nat, r.events.toList.map Event.line? = numbers.map some ∧
        numbers.Pairwise (· < ·) ∧ ∀ n ∈ numbers, Lines.TellsAt text.lines n := by
  intro r traces
  have haccounts : Reading.Accounts m text.lines r := Reading.accounts_readLines m text.lines
  have htraces : traces = r.events.toList := by
    apply List.filter_eq_self.2
    intro e he
    exact decide_eq_true (haccounts.level_eq e he)
  rw [htraces]
  exact ⟨haccounts.size_eq, haccounts.length_eq, haccounts.ignored_eq, haccounts.namesLines⟩

end Lineage
