import Ensemble.Proofs.Decode.Values
import Ensemble.Proofs.Time.Notation
import Ensemble.Trace.Chunk

/-!
# Chunks read back from their lines

A client that decodes the line of a chunk has the chunk
(`Chunk.line_decodes`): its variant, every text, every part of every message,
the counts of tokens, the time to the nanosecond and the free values. The
text is read as the value that was written (`Json.parse?_compact`), and
each record in it as itself, from the parts of a message outwards.
-/

namespace Ensemble

open Decode

/-! ## What a record carries -/

/-- The free values in a part of a message. -/
def Part.carried : Part → List Json
  | .toolCall _ _ args => [args]
  | .toolResult _ _ result => [result]
  | _ => []

def Message.carried (m : Message) : List Json := m.content.flatMap Part.carried

/-- The free values in a chunk. -/
def Chunk.carried : Chunk → List Json
  | .flowStart _ _ input _ => [input]
  | .stepFinish _ _ _ messages _ _ _ => messages.flatMap Message.carried
  | .finalResponse _ result _ => [result]
  | .error _ => []

/-- A free value without doubles. The keys of its objects ascend and do not repeat, as those of
maps do. -/
structure Json.Exact (v : Json) : Prop where
  canonical : v.canonical = v
  whole : v.IsWhole

theorem Json.Exact.free? {v : Json} (h : v.Exact) :
    Source.free? (Content.ofJson v) = some v := by
  have hfree := Content.free?_ofJson h.whole
  rwa [h.canonical] at hfree

/-! ## All numbers are whole -/

theorem Json.isWhole_ofCount (n : UInt64) : (Json.ofCount n).IsWhole := by
  have hsize := n.toNat_lt_size
  have hmax : UInt64.size = 2 ^ 64 := rfl
  constructor <;> omega

theorem Json.itemsWhole_map {α : Type} {f : α → Json} {xs : List α}
    (h : ∀ x ∈ xs, (f x).IsWhole) : ItemsWhole (xs.map f) := by
  induction xs with
  | nil => trivial
  | cons x xs ih =>
      obtain ⟨hx, hxs⟩ := List.forall_mem_cons.mp h
      exact ⟨hx, ih hxs⟩

theorem Part.isWhole {p : Part} (h : ∀ v ∈ p.carried, v.Exact) : p.toJson.IsWhole := by
  cases p with
  | text s => exact ⟨trivial, trivial, trivial⟩
  | image mime data => exact ⟨trivial, trivial, trivial, trivial⟩
  | toolCall id name args =>
      exact ⟨trivial, trivial, trivial, (h args (List.mem_singleton_self _)).whole, trivial⟩
  | toolResult id name result =>
      exact ⟨trivial, trivial, trivial, (h result (List.mem_singleton_self _)).whole, trivial⟩

theorem Message.isWhole {m : Message} (h : ∀ v ∈ m.carried, v.Exact) : m.toJson.IsWhole :=
  ⟨trivial, Json.itemsWhole_map fun p hp => Part.isWhole fun v hv =>
    h v (List.mem_flatMap.mpr ⟨p, hp, hv⟩), trivial⟩

theorem Chunk.isWhole {c : Chunk} (h : ∀ v ∈ c.carried, v.Exact) : c.toJson.IsWhole := by
  cases c with
  | flowStart name step input t =>
      have hinput := (h input (List.mem_singleton_self _)).whole
      exact ⟨trivial, trivial, trivial, hinput, trivial, trivial⟩
  | stepFinish name model step messages usage finishReason t =>
      have hmessages : (Json.array (messages.map Message.toJson)).IsWhole :=
        Json.itemsWhole_map fun m hm => Message.isWhole fun v hv =>
          h v (List.mem_flatMap.mpr ⟨m, hm, hv⟩)
      have husage : usage.toJson.IsWhole :=
        ⟨Json.isWhole_ofCount _, Json.isWhole_ofCount _, trivial⟩
      exact ⟨trivial, trivial, trivial, trivial, hmessages, husage, trivial, trivial, trivial⟩
  | finalResponse name result t =>
      have hresult := (h result (List.mem_singleton_self _)).whole
      exact ⟨trivial, trivial, hresult, trivial, trivial⟩
  | error message => exact ⟨trivial, trivial, trivial⟩

/-! ## Records in a chunk -/

@[simp] theorem text?_ofJson (s : String) :
    Source.text? (Content.ofJson (.string s)) = some s := rfl

@[simp] theorem count?_ofJson (n : UInt64) :
    Source.count? (Content.ofJson (.ofCount n)) = some n := by
  have hsize : n.toNat < UInt64.size := n.toNat_lt_size
  simp [Source.count?, Content.ofJson, Json.ofCount, Json.ofNat, Number.unsigned?, hsize]

theorem Tokens.read?_toJson (t : Tokens) : Tokens.read? (Content.ofJson t.toJson) = some t := by
  simp [Tokens.read?, Tokens.toJson, List.lookup_cons]

theorem Role.read?_name (r : Role) : Role.read? (Content.ofJson (.string r.name)) = some r := by
  cases r <;> rfl

/-- A part of a message is read as it was written, whichever kind it is of. -/
theorem Part.read?_toJson {p : Part} (h : ∀ v ∈ p.carried, v.Exact) :
    Part.read? (Content.ofJson p.toJson) = some p := by
  cases p with
  | text s => simp [Part.read?, Part.toJson, Part.variants, List.findIdx?_cons, Part.ofBody?]
  | image mime data =>
      simp [Part.read?, Part.toJson, Part.variants, List.findIdx?_cons, Part.ofBody?,
        List.lookup_cons]
  | toolCall id name args =>
      have hargs := (h args (List.mem_singleton_self _)).free?
      simp [Part.read?, Part.toJson, Part.variants, List.findIdx?_cons, Part.ofBody?,
        List.lookup_cons, hargs]
  | toolResult id name result =>
      have hresult := (h result (List.mem_singleton_self _)).free?
      simp [Part.read?, Part.toJson, Part.variants, List.findIdx?_cons, Part.ofBody?,
        List.lookup_cons, hresult]

theorem Message.read?_toJson {m : Message} (h : ∀ v ∈ m.carried, v.Exact) :
    Message.read? (Content.ofJson m.toJson) = some m := by
  have hparts : list? Part.read? (Content.ofJson (.array (m.content.map Part.toJson)))
      = some m.content :=
    list?_array fun p hp => Part.read?_toJson fun v hv => h v (List.mem_flatMap.mpr ⟨p, hp, hv⟩)
  simp [Message.read?, Message.toJson, List.lookup_cons, Role.read?_name, hparts]

/-! ## Chunks -/

theorem Chunk.read?_toJson {c : Chunk} (h : ∀ v ∈ c.carried, v.Exact)
    (htime : ∀ t ∈ c.time?, t.Ordinary) : Chunk.read? (Document.ofJson c.toJson) = some c := by
  cases c with
  | flowStart name step input t =>
      have hinput := (h input (List.mem_singleton_self _)).free?
      have ht := Instant.read?_render (htime t rfl)
      simp [Chunk.read?, Chunk.toJson, Chunk.variants, List.findIdx?_cons, Chunk.ofBody?,
        List.lookup_cons, hinput, ht]
  | stepFinish name model step messages usage finishReason t =>
      have hmessages : list? Message.read? (Content.ofJson (.array (messages.map Message.toJson)))
          = some messages :=
        list?_array fun m hm => Message.read?_toJson fun v hv =>
          h v (List.mem_flatMap.mpr ⟨m, hm, hv⟩)
      have ht := Instant.read?_render (htime t rfl)
      simp [Chunk.read?, Chunk.toJson, Chunk.variants, List.findIdx?_cons, Chunk.ofBody?,
        List.lookup_cons, hmessages, Tokens.read?_toJson, ht]
  | finalResponse name result t =>
      have hresult := (h result (List.mem_singleton_self _)).free?
      have ht := Instant.read?_render (htime t rfl)
      simp [Chunk.read?, Chunk.toJson, Chunk.variants, List.findIdx?_cons, Chunk.ofBody?,
        List.lookup_cons, hresult, ht]
  | error message =>
      simp [Chunk.read?, Chunk.toJson, Chunk.variants, List.findIdx?_cons, Chunk.ofBody?]

/-- The chunk that a line of JSON is. -/
def Chunk.ofText? (text : String) : Option Chunk := (Document.parse? text.toList).bind Chunk.read?

/-- **The wire format loses nothing.** Whatever a chunk carries, if its free values have no doubles
and canonical objects, its time is one of the years 0 to 9999, and no more arrays and objects are
nested than a reader takes, then its line is decoded as the same chunk. -/
theorem Chunk.line_decodes (c : Chunk) (hcarried : ∀ v ∈ c.carried, v.Exact)
    (htime : ∀ t ∈ c.time?, t.Ordinary) (hdepth : c.toJson.depth ≤ 127) :
    Chunk.ofText? c.line = some c := by
  have hparse : Document.parse? c.line.toList = some (.ofJson c.toJson) := by
    rw [Chunk.line, String.toList_ofList]
    exact Json.parse?_compact (Chunk.isWhole hcarried) hdepth (Or.inr rfl)
  rw [Chunk.ofText?, hparse, Option.bind_some]
  exact Chunk.read?_toJson hcarried htime

/-- A step with all kinds of parts, with characters that have to be escaped, the largest count and
the smallest fraction of a second. -/
def Chunk.richStep : Chunk :=
  .stepFinish "draft" "gpt-4o" "main/0:draft"
    [{ role := .user, content := [.text "say \"hi\" \\ \n\x01 né", .image "image/png" "AAE="] },
      { role := .assistant
        content := [.toolCall "1" "sum" (.object [("a", .array [.ofInt (-3), .null]),
          ("b", .object [("x", .bool true)])])] },
      { role := .tool, content := [.toolResult "1" "sum" (.ofNat 18446744073709551615)] }]
    { prompt := 18446744073709551615, completion := 0 } "stop"
    { year := 2024, month := 2, day := 29, hour := 23, minute := 59, second := 59, nano := 1 }

theorem Chunk.line_decodes_rich :
    (∀ v ∈ Chunk.richStep.carried, v.Exact) ∧ (∀ t ∈ Chunk.richStep.time?, t.Ordinary) ∧
      Chunk.richStep.toJson.depth ≤ 127 ∧
      Chunk.ofText? Chunk.richStep.line = some Chunk.richStep := by
  have hcarried : ∀ v ∈ Chunk.richStep.carried, v.Exact := by
    refine List.forall_mem_cons.mpr ⟨⟨rfl, ?_⟩, List.forall_mem_singleton.mpr ⟨rfl, ?_⟩⟩
    · simp [Json.IsWhole, Json.FieldsWhole, Json.ItemsWhole, Json.ofInt, Number.IsWhole]
    · simp [Json.IsWhole, Json.ofNat, Number.IsWhole]
  have htime : ∀ t ∈ Chunk.richStep.time?, t.Ordinary := by decide
  have hdepth : Chunk.richStep.toJson.depth ≤ 127 := by decide
  exact ⟨hcarried, htime, hdepth, Chunk.line_decodes _ hcarried htime hdepth⟩

end Ensemble
