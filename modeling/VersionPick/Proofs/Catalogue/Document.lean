/-
The document of a catalogue. What is written for a catalogue is read back as it
was, file by file (`read?_text`). A document may hold more than is written: a
version twice, members that nobody asks for, a record as an array. Of a version
that occurs several times the last publication counts, in the place of the
first (`versions_ofList`, `mem_ofList`), and so it does when the document is
written again (`document_round_trip`).
-/
import VersionPick.Catalogue.Document
import VersionPick.Proofs.Json.Record
import VersionPick.Proofs.Report.Versions

namespace VersionPick

open Json

/-! ## Publications written one after the other -/

namespace Catalogue

theorem write_of_not_mem {k : String} (v : α) : ∀ {entries : List (String × α)}, k ∉ entries.map (·.1) →
    write k v entries = entries ++ [(k, v)]
  | [], _ => rfl
  | (k', v') :: rest, h => by
    rw [List.map_cons, List.mem_cons, not_or] at h
    rw [write, if_neg (Ne.symm h.1), write_of_not_mem v h.2, List.cons_append]

/-- A write changes what stands for its key and nothing else. -/
theorem mem_write {k k' : String} {v v' : α} : ∀ {entries : List (String × α)}, (entries.map (·.1)).Nodup →
    ((k', v') ∈ write k v entries ↔ if k' = k then v' = v else (k', v') ∈ entries)
  | [], _ => by
    by_cases hk : k' = k <;> simp [write, hk]
  | (key, value) :: rest, h => by
    obtain ⟨hkey, hrest⟩ := List.nodup_cons.mp h
    have ih : (k', v') ∈ write k v rest ↔ _ := mem_write hrest
    by_cases hwritten : key = k
    · subst hwritten
      have hmem : ∀ v', (key, v') ∉ rest := fun _ hv => hkey (List.mem_map.mpr ⟨_, hv, rfl⟩)
      by_cases hk : k' = key <;> simp [write, hk, hmem]
    · rw [write, if_neg hwritten, List.mem_cons, ih]
      by_cases hk : k' = k
      · simp [hk, Ne.symm hwritten]
      · simp [hk]

variable (writes : List (String × Publication)) (version : String) (p : Publication)

theorem entries_put (c : Catalogue) : (c.put version p).entries = write version p c.entries := rfl

theorem ofList_concat : ofList (writes ++ [(version, p)]) = (ofList writes).put version p := by
  simp [ofList]

/-- Each version is listed once, where it occurs first. -/
theorem versions_ofList : (ofList writes).versions = (writes.map (·.1)).eraseDups := by
  induction writes using List.reverseRecOn with
  | nil => rfl
  | append_singleton writes w ih =>
    have hkeys := keys_write w.1 w.2 (ofList writes).entries
    have hmem : w.1 ∈ (ofList writes).versions ↔ w.1 ∈ writes.map (·.1) := by rw [ih, List.mem_eraseDups]
    rw [ofList_concat, List.map_append, List.map_singleton, eraseDups_concat, ← ih]
    simp only [← hmem]
    exact hkeys

/-- What is published for a version is what was written for it last. -/
theorem mem_ofList : (version, p) ∈ (ofList writes).entries ↔ writes.reverse.lookup version = some p := by
  induction writes using List.reverseRecOn with
  | nil => simp [ofList, empty]
  | append_singleton writes w ih =>
    obtain ⟨written, last⟩ := w
    have hwrite : (version, p) ∈ write written last (ofList writes).entries ↔ _ :=
      mem_write (ofList writes).nodup_keys
    rw [ofList_concat, entries_put, hwrite, ih, List.reverse_concat, List.lookup_cons]
    by_cases hw : version = written
    · simp [hw, eq_comm]
    · have hne : (version == written) = false := beq_eq_false_iff_ne.mpr hw
      simp [hw, hne]

/-- Entries with different versions are all kept. -/
theorem entries_ofList (h : (writes.map (·.1)).Nodup) : (ofList writes).entries = writes := by
  induction writes using List.reverseRecOn with
  | nil => rfl
  | append_singleton writes w ih =>
    rw [List.map_append, List.nodup_append] at h
    obtain ⟨hwrites, -, hnew⟩ := h
    have hw : w.1 ∉ (ofList writes).entries.map (·.1) := by
      rw [ih hwrites]
      exact fun hmem => hnew _ hmem _ (by simp) rfl
    rw [ofList_concat, entries_put, write_of_not_mem w.2 hw, ih hwrites]

theorem ofList_entries (c : Catalogue) : ofList c.entries = c := by
  have h := entries_ofList c.entries c.nodup_keys
  obtain ⟨entries, hnodup⟩ := c
  generalize ofList entries = d at *
  obtain ⟨entries', hnodup'⟩ := d
  dsimp only at h
  subst h
  rfl

end Catalogue

/-! ## Files and publications -/

namespace Download

/-- A member with a text, if there is one. -/
def given (name : String) (text : Option String) : List (String × Value) :=
  text.toList.map fun s => (name, .ofText s)

theorem proper_given (name : String) (text : Option String) : ∀ m ∈ given name text, m.2.Proper := by
  intro m hm
  obtain ⟨s, -, rfl⟩ := List.mem_map.mp hm
  exact proper_ofText s

/-- The members that are written for a file. -/
def members (d : Download) : List (String × Value) :=
  [("url", .ofText d.url)] ++ given "triplet" d.triplet ++ [("kind", .ofText d.kind), ("arch", .ofText d.arch)] ++
    given "asc" d.asc ++ given "sha256" d.sha256 ++ [("size", .ofWord d.size), ("version", .ofText d.version),
      ("os", .ofText d.os), ("extension", .ofText d.extension)]

theorem toJson_eq_record (d : Download) : d.toJson = .record d.members := by
  obtain ⟨url, triplet, kind, arch, asc, sha256, size, version, os, extension⟩ := d
  cases triplet <;> cases asc <;> cases sha256 <;> rfl

/-- The fields are found by their names, whichever are missing. -/
theorem fields?_toJson (d : Download) : fields? fieldNames d.toJson = some
    [some (.ofText d.url), d.triplet.map .ofText, some (.ofText d.kind), some (.ofText d.arch), d.asc.map .ofText,
      d.sha256.map .ofText, some (.ofWord d.size), some (.ofText d.version), some (.ofText d.os),
      some (.ofText d.extension)] := by
  rw [toJson_eq_record, fields?_record]
  obtain ⟨url, triplet, kind, arch, asc, sha256, size, version, os, extension⟩ := d
  cases triplet <;> cases asc <;> cases sha256 <;> rfl

theorem ofJson?_toJson (d : Download) : ofJson? d.toJson = some d := by
  rw [ofJson?, fields?_toJson]
  simp [required, text?_ofText, optional_text?_ofText, word?_ofWord]

theorem proper_toJson (d : Download) : d.toJson.Proper := by
  rw [toJson_eq_record]
  refine proper_record ?_
  simp only [members, List.forall_mem_append, List.forall_mem_cons, proper_ofText, proper_ofWord, true_and]
  exact ⟨⟨⟨⟨⟨nofun, proper_given _ _⟩, nofun⟩, proper_given _ _⟩, proper_given _ _⟩, nofun⟩

end Download

namespace Publication

theorem toJson_eq_record (p : Publication) :
    p.toJson = .record [("files", .array (p.files.map Download.toJson)), ("stable", .bool p.stable)] := rfl

theorem ofJson?_toJson (p : Publication) : ofJson? p.toJson = some p := by
  have hfields : fields? ["files", "stable"] p.toJson =
      some [some (.array (p.files.map Download.toJson)), some (.bool p.stable)] := by
    rw [toJson_eq_record, fields?_record]
    rfl
  have hfiles : (p.files.map Download.toJson).mapM Download.ofJson? = some p.files := by
    rw [mapM_eq_some, List.forall₂_map_left_iff, List.forall₂_same]
    exact fun d _ => d.ofJson?_toJson
  rw [ofJson?, hfields]
  simp [required, Value.elements?, Value.bool?, hfiles]

theorem proper_toJson (p : Publication) : p.toJson.Proper := by
  rw [toJson_eq_record]
  refine proper_record ?_
  simp only [List.forall_mem_cons]
  refine ⟨.array fun v hv => ?_, .bool p.stable, nofun⟩
  obtain ⟨d, -, rfl⟩ := List.mem_map.mp hv
  exact d.proper_toJson

end Publication

/-! ## Documents -/

namespace Catalogue

theorem toJson_eq_record (c : Catalogue) : c.toJson = .record (c.entries.map fun e => (e.1, e.2.toJson)) := by
  rw [Value.record, List.map_map]
  rfl

/-- A member with the text of its key. -/
def named? (member : List Char × Value) : Option (String × Value) :=
  (decode? member.1).map fun key => (String.ofList key, member.2)

/-- The publication that a member is. -/
def published? (member : String × Value) : Option (String × Publication) :=
  (Publication.ofJson? member.2).map (member.1, ·)

theorem members?_object (members : List (List Char × Value)) :
    (Value.object members).members? = members.mapM named? := rfl

theorem ofJson?_eq (v : Value) :
    ofJson? v = v.members?.bind fun members => (members.mapM published?).bind fun writes => some (ofList writes) := rfl

theorem ofJson?_toJson (c : Catalogue) : ofJson? c.toJson = some c := by
  have hentries : (c.entries.map fun e => (e.1, e.2.toJson)).mapM published? = some c.entries := by
    rw [mapM_eq_some, List.forall₂_map_left_iff, List.forall₂_same]
    intro e _
    rw [published?, Publication.ofJson?_toJson, Option.map_some]
  rw [toJson_eq_record, ofJson?_eq, members?_record, Option.bind_some, hentries, Option.bind_some, ofList_entries]

theorem proper_toJson (c : Catalogue) : c.toJson.Proper := by
  rw [toJson_eq_record]
  refine proper_record fun m hm => ?_
  obtain ⟨e, -, rfl⟩ := List.mem_map.mp hm
  exact e.2.proper_toJson

theorem read?_text (c : Catalogue) : read? c.text = some c := by
  rw [read?, text, read?_write c.proper_toJson, Option.bind_some, ofJson?_toJson]

/-- What a document lists: for each of its members, in their order, a version
and what is published for it. -/
def Lists (text : List Char) (writes : List (String × Publication)) : Prop :=
  ∃ members, Json.read? text = some (.object members) ∧
    List.Forall₂ (fun m w => decode? m.1 = some w.1.toList ∧ Publication.ofJson? m.2 = some w.2) members writes

theorem named_published_eq_some {member : List Char × Value} {w : String × Publication} :
    (named? member).bind published? = some w ↔
      decode? member.1 = some w.1.toList ∧ Publication.ofJson? member.2 = some w.2 := by
  obtain ⟨version, p⟩ := w
  simp only [named?, published?, Option.bind_eq_some_iff, Option.map_eq_some_iff, Prod.mk.injEq]
  constructor
  · rintro ⟨_, ⟨_, hkey, rfl⟩, _, hread, rfl, rfl⟩
    exact ⟨by rw [hkey, String.toList_ofList], hread⟩
  · rintro ⟨hkey, hread⟩
    exact ⟨_, ⟨_, hkey, rfl⟩, _, hread, String.ofList_toList, rfl⟩

/-- Keys and publications are read one after the other, which is as reading
member by member. -/
theorem ofJson?_object {members : List (List Char × Value)} {c : Catalogue} :
    ofJson? (.object members) = some c ↔
      ∃ writes, (members.mapM fun member => (named? member).bind published?) = some writes ∧ ofList writes = c := by
  rw [ofJson?_eq, members?_object, ← Option.bind_assoc, mapM_mapM]
  simp only [Option.bind_eq_some_iff, Option.some.injEq]

theorem lists_iff {text : List Char} {writes : List (String × Publication)} : Lists text writes ↔
    ∃ members, Json.read? text = some (.object members) ∧
      (members.mapM fun member => (named? member).bind published?) = some writes := by
  simp only [Lists, mapM_eq_some, named_published_eq_some]

/-- A document is accepted if it lists publications. -/
theorem read?_eq_some {text : List Char} {c : Catalogue} :
    read? text = some c ↔ ∃ writes, Lists text writes ∧ c = ofList writes := by
  simp only [read?, Option.bind_eq_some_iff, lists_iff]
  constructor
  · rintro ⟨v, hv, h⟩
    cases v with
    | object members =>
      obtain ⟨writes, hwrites, rfl⟩ := ofJson?_object.mp h
      exact ⟨writes, ⟨members, hv, hwrites⟩, rfl⟩
    | _ => cases h
  · rintro ⟨writes, ⟨members, hv, hwrites⟩, rfl⟩
    exact ⟨_, hv, ofJson?_object.mpr ⟨writes, hwrites, rfl⟩⟩

/-- **A catalogue survives its document.** It is read back from its text, with
the same entries in the same order. So is a catalogue that was read from any
other document; in it each version of the document stands once, in the order in
which they occur first, with what the document says of it last. -/
theorem document_round_trip : (∀ c : Catalogue, read? c.text = some c) ∧
    ∀ (text : List Char) (c : Catalogue), read? text = some c → read? c.text = some c ∧
      ∃ writes, Lists text writes ∧ c.versions = (writes.map (·.1)).eraseDups ∧
        ∀ version p, (version, p) ∈ c.entries ↔ writes.reverse.lookup version = some p := by
  refine ⟨read?_text, fun text c h => ⟨read?_text c, ?_⟩⟩
  obtain ⟨writes, hlists, rfl⟩ := read?_eq_some.mp h
  exact ⟨writes, hlists, versions_ofList writes, mem_ofList writes⟩

/-- A version that occurs twice, and records that are written as arrays. -/
theorem document_round_trip_repeated :
    let text := "\x7b\"1\":[[],false],\"2\":\x7b\"files\":[],\"a\":0,\"stable\":true\x7d,\"\\u0031\":" ++
      "[[[\"u\",null,\"k\",\"a\",null,\"h\",18446744073709551615,\"v\",\"o\",\"e\"]],true]\x7d"
    let last : Publication := ⟨[⟨"u", none, "k", "a", none, some "h", 18446744073709551615, "v", "o", "e"⟩], true⟩
    ∃ c writes, read? text.toList = some c ∧ c.entries = [("1", last), ("2", ⟨[], true⟩)] ∧
      read? c.text = some c ∧ Lists text.toList writes ∧ (writes.map (·.1)).eraseDups = ["1", "2"] ∧
      writes.reverse.lookup "1" = some last := by
  intro text last
  have hread : (read? text.toList).map (·.entries) = some [("1", last), ("2", ⟨[], true⟩)] := by
    decide +kernel
  obtain ⟨c, hc, hentries⟩ := Option.map_eq_some_iff.mp hread
  obtain ⟨hagain, writes, hlists, hversions, hlast⟩ := document_round_trip.2 _ c hc
  refine ⟨c, writes, hc, hentries, hagain, hlists, ?_, (hlast _ _).mp (by simp [hentries])⟩
  rw [← hversions, versions, hentries]
  rfl

end Catalogue

end VersionPick
