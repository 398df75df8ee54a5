/-
Asking for one nightly build and listing all of them, where a server always
gives the same answer to the same address. The list has a download for each
entry of the table whose address is answered with success, in the order of the
table (`artifacts_answered`), or it is the first failure on the way
(`artifacts_failed`). The entry that is asked for alone is one of the table, and
no other has its address; so it is found exactly if it is listed
(`probe_agrees`).
-/
import VersionPick.Proofs.Nightly.Address
import VersionPick.Proofs.Remote.Download
import VersionPick.Proofs.Text.Decimal
import VersionPick.Remote.Nightlies

namespace VersionPick

open Nightly Text

/-- What a server answers to requests for an address. -/
abbrev Server := String → Except TransportFault Response

/-- There is something at an address. -/
def Server.has (server : Server) (url : String) : Bool :=
  match server url with
  | .ok response => response.isSuccess
  | .error _ => false

/-- A client that keeps a record of its actions, and is answered by a server. -/
def Client.served (server : Server) : Client (StateM (List ClientAction)) where
  request method url := fun record => (server url, record ++ [.request method url])
  wait delay := fun record => ((), record ++ [.wait delay])

/-! ## Sizes -/

/-- A length is declared as a number of 64 bits: by its digits, with or without
a plus sign in front. -/
def WritesSize (length : String) (size : UInt64) : Prop :=
  ∃ digits, (length.toList = digits ∨ length.toList = '+' :: digits) ∧
    Decimal.isNumeral digits = true ∧ Decimal.value digits = size.toNat

/-- The size in an answer: the length that it declares, or zero if it declares
none that is a number of 64 bits. -/
inductive Response.Declares (r : Response) : UInt64 → Prop
  | length {length : String} {size : UInt64} (h : r.length = some length) (hsize : WritesSize length size) :
    Declares r size
  | nothing (h : ∀ length size, r.length = some length → ¬ WritesSize length size) : Declares r 0

/-- A plus sign in front is no digit, so there is one way only to take it. -/
theorem writesSize_iff {length : String} {size : UInt64} : WritesSize length size ↔
    (Decimal.read? ((List.isPrefixOf? ['+'] length.toList).getD length.toList)).bind Decimal.toWord? = some size := by
  rw [Decimal.read?_bind_eq_some]
  have hplus : ∀ digits, Decimal.isNumeral ('+' :: digits) = false := fun digits => rfl
  cases hsign : List.isPrefixOf? ['+'] length.toList with
  | none =>
    have hne : ∀ digits, length.toList ≠ '+' :: digits := fun digits h => by
      rw [List.isPrefixOf?_eq_some_iff_append_eq.mpr h.symm] at hsign
      cases hsign
    constructor
    · rintro ⟨digits, rfl | h, hdigits⟩
      · exact hdigits
      · exact absurd h (hne digits)
    · exact fun h => ⟨length.toList, .inl rfl, h⟩
  | some digits =>
    have htext : length.toList = '+' :: digits := (List.append_eq_of_isPrefixOf?_eq_some hsign).symm
    constructor
    · rintro ⟨digits', h | h, hdigits⟩
      · rw [← h, htext, hplus] at hdigits
        cases hdigits.1
      · rw [htext] at h
        cases h
        exact hdigits
    · exact fun h => ⟨digits, .inr htext, h⟩

theorem Response.declares_size (r : Response) : r.Declares r.size := by
  unfold size
  cases hlength : r.length with
  | none => exact .nothing fun length size h => nomatch hlength.symm.trans h
  | some length =>
    cases hsize : (Decimal.read? ((List.isPrefixOf? ['+'] length.toList).getD length.toList)).bind Decimal.toWord? with
    | some size =>
      simp only [hsize]
      exact .length hlength (writesSize_iff.mpr hsize)
    | none =>
      simp only [hsize]
      refine .nothing fun length' size h hwrites => ?_
      obtain rfl : length = length' := Option.some.inj (hlength.symm.trans h)
      exact nomatch hsize.symm.trans (writesSize_iff.mp hwrites)

/-! ## Requests -/

namespace Client

section
variable {server : Server} {record : List ClientAction} {url : String}

theorem artifactSize?_served_ok {response : Response} (h : server url = .ok response) :
    ((served server).artifactSize? url).run record =
      (.ok (if response.isSuccess then some response.size else none), record ++ [.request .head url]) := by
  have hrequest : ((served server).request .head url).run record =
      (.ok response, record ++ [.request .head url]) := by
    rw [← h]
    rfl
  rw [artifactSize?, StateT.run_bind, hrequest]
  rfl

theorem artifactSize?_served_error {fault : TransportFault} (h : server url = .error fault) :
    ((served server).artifactSize? url).run record =
      (.error (.transport fault), record ++ [.request .head url]) := by
  have hrequest : ((served server).request .head url).run record =
      (.error fault, record ++ [.request .head url]) := by
    rw [← h]
    rfl
  rw [artifactSize?, StateT.run_bind, hrequest]
  rfl

theorem probe_served {settings : Settings} {branch : String} {response : Response}
    (h : server (settings.platform.url settings.nightlyBaseUrl (some branch)) = .ok response) :
    ((served server).probe settings branch).run record = (.ok response.isSuccess,
      record ++ [.request .head (settings.platform.url settings.nightlyBaseUrl (some branch))]) := by
  rw [probe, StateT.run_bind, artifactSize?_served_ok h]
  cases hsuccess : response.isSuccess <;> rfl

end

/-- The requests for the artifacts of some platforms. -/
def headRequests (base : String) (branch : Option String) (platforms : List Platform) : List ClientAction :=
  platforms.map fun p => .request .head (p.url base branch)

section
variable {server : Server} {base : String} {branch : Option String} {p : Platform} {platforms : List Platform}
  {record : List ClientAction}

theorem artifacts_absent {response : Response} (h : server (p.url base branch) = .ok response)
    (hsuccess : response.isSuccess = false) :
    ((served server).artifacts base branch (p :: platforms)).run record =
      ((served server).artifacts base branch platforms).run (record ++ [.request .head (p.url base branch)]) := by
  rw [artifacts, StateT.run_bind, artifactSize?_served_ok h, hsuccess]
  rfl

theorem artifacts_present {response : Response} (h : server (p.url base branch) = .ok response)
    (hsuccess : response.isSuccess = true) {outcome : Except FetchError (List Download)} {record' : List ClientAction}
    (hrest : ((served server).artifacts base branch platforms).run
      (record ++ [.request .head (p.url base branch)]) = (outcome, record')) :
    ((served server).artifacts base branch (p :: platforms)).run record =
      (outcome.map (p.download base branch response.size :: ·), record') := by
  rw [artifacts, StateT.run_bind, artifactSize?_served_ok h, hsuccess]
  change StateT.run ((served server).artifacts base branch platforms >>= fun listed => _) _ = _
  rw [StateT.run_bind, hrest]
  rfl

theorem artifacts_fault {fault : TransportFault} (h : server (p.url base branch) = .error fault) :
    ((served server).artifacts base branch (p :: platforms)).run record =
      (.error (.transport fault), record ++ [.request .head (p.url base branch)]) := by
  rw [artifacts, StateT.run_bind, artifactSize?_served_error h]
  rfl

end

end Client

/-- What a list says about an artifact that a server has: all that the table
says, and the size in the answer. -/
structure Lists (server : Server) (base : String) (branch : Option String) (p : Platform) (d : Download) : Prop where
  url : d.url = p.url base branch
  os : d.os = p.os
  arch : d.arch = p.arch
  extension : d.extension = p.extension
  kind : d.kind = p.kind.name
  size : ∃ response, server d.url = .ok response ∧ response.Declares d.size

namespace Client

section
variable {server : Server} {base : String} {branch : Option String}

/-- Where every address is answered, the artifacts that are there are listed,
each once and in their order. -/
theorem artifacts_answered {platforms : List Platform}
    (h : ∀ p ∈ platforms, ∃ response, server (p.url base branch) = .ok response) (record : List ClientAction) :
    ∃ downloads, ((served server).artifacts base branch platforms).run record =
        (.ok downloads, record ++ headRequests base branch platforms) ∧
      List.Forall₂ (Lists server base branch) (platforms.filter fun p => server.has (p.url base branch))
        downloads := by
  induction platforms generalizing record with
  | nil => exact ⟨[], by simp [artifacts, headRequests, pure, StateT.pure, StateT.run], .nil⟩
  | cons p platforms ih =>
    obtain ⟨response, hresponse⟩ := h p (by simp)
    obtain ⟨downloads, hrun, hlists⟩ :=
      ih (fun q hq => h q (List.mem_cons_of_mem p hq)) (record ++ [.request .head (p.url base branch)])
    have hhas : server.has (p.url base branch) = response.isSuccess := by rw [Server.has, hresponse]
    have hrecord : record ++ [.request .head (p.url base branch)] ++ headRequests base branch platforms =
        record ++ headRequests base branch (p :: platforms) := by
      rw [List.append_assoc]
      rfl
    rw [hrecord] at hrun
    cases hsuccess : response.isSuccess with
    | false =>
      refine ⟨downloads, by rw [artifacts_absent hresponse hsuccess, hrun], ?_⟩
      rw [List.filter_cons_of_neg (by simp [hhas, hsuccess])]
      exact hlists
    | true =>
      refine ⟨_, artifacts_present hresponse hsuccess hrun, ?_⟩
      rw [List.filter_cons_of_pos (by simp [hhas, hsuccess])]
      exact .cons ⟨rfl, rfl, rfl, rfl, rfl, response, hresponse, response.declares_size⟩ hlists

/-- The first request that fails ends the list, and nothing of it is kept. -/
theorem artifacts_failed {before : List Platform} (after : List Platform) {p : Platform} {fault : TransportFault}
    (hbefore : ∀ q ∈ before, ∃ response, server (q.url base branch) = .ok response)
    (hp : server (p.url base branch) = .error fault) (record : List ClientAction) :
    ((served server).artifacts base branch (before ++ p :: after)).run record =
      (.error (.transport fault), record ++ headRequests base branch (before ++ [p])) := by
  induction before generalizing record with
  | nil => exact artifacts_fault hp
  | cons q before ih =>
    obtain ⟨response, hresponse⟩ := hbefore q (by simp)
    have hrest := ih (fun q' hq => hbefore q' (List.mem_cons_of_mem q hq))
      (record ++ [.request .head (q.url base branch)])
    have hrecord : record ++ [.request .head (q.url base branch)] ++ headRequests base branch (before ++ [p]) =
        record ++ headRequests base branch (q :: before ++ [p]) := by
      rw [List.append_assoc]
      rfl
    rw [hrecord] at hrest
    cases hsuccess : response.isSuccess with
    | false => rw [List.cons_append, artifacts_absent hresponse hsuccess, hrest]
    | true => rw [List.cons_append, artifacts_present hresponse hsuccess hrest]; rfl

theorem map_url_of_lists {listed : List Platform} {downloads : List Download}
    (h : List.Forall₂ (Lists server base branch) listed downloads) :
    downloads.map (·.url) = listed.map (·.url base branch) := by
  induction h with
  | nil => rfl
  | cons hd _ ih => rw [List.map_cons, List.map_cons, hd.url, ih]

end

/-- No two artifacts of the table have one address. -/
theorem nodup_urls (base : String) (branch : Option String) : (platforms.map (·.url base branch)).Nodup :=
  List.Nodup.map_on (fun _ hp _ hq h => (Platform.url_inj hp hq h).1) (by decide)

section
variable {server : Server} {base : String} {branch : Option String} {downloads : List Download}
  (hlists : List.Forall₂ (Lists server base branch) (platforms.filter fun p => server.has (p.url base branch))
    downloads)
include hlists

/-- No address is listed twice. -/
theorem nodup_listed : (downloads.map (·.url)).Nodup := by
  rw [map_url_of_lists hlists]
  exact (nodup_urls base branch).sublist (List.filter_sublist.map _)

/-- An entry of the table is listed if it is there. Another entry cannot be
listed in its place, as it has another address. -/
theorem has_iff_listed {p : Platform} (hp : p ∈ platforms) :
    server.has (p.url base branch) = true ↔ ∃ d ∈ downloads, d.url = p.url base branch := by
  rw [← List.mem_map, map_url_of_lists hlists, List.mem_map]
  constructor
  · exact fun h => ⟨p, List.mem_filter.mpr ⟨hp, h⟩, rfl⟩
  · rintro ⟨q, hq, hsame⟩
    obtain ⟨hmem, hhas⟩ := List.mem_filter.mp hq
    rwa [(Platform.url_inj hmem hp hsame).1] at hhas

end

/-- The entry that a system and an architecture stand for: the first of the
table that has both, and that of 64-bit Linux if none has. -/
inductive StandsFor (os arch : String) : Platform → Prop
  | first {before after : List Platform} {p : Platform} (htable : platforms = before ++ p :: after)
    (hos : p.os = os) (harch : p.arch = arch) (hbefore : ∀ q ∈ before, ¬ (q.os = os ∧ q.arch = arch)) :
    StandsFor os arch p
  | unknown (h : ∀ q ∈ platforms, ¬ (q.os = os ∧ q.arch = arch)) :
    StandsFor os arch ⟨"linux", "x86_64", none, "tar.gz"⟩

theorem standsFor_platform (settings : Settings) :
    StandsFor settings.nightlyPlatform settings.nightlyArch settings.platform := by
  unfold Settings.platform
  cases hfind : Platform.find? settings.nightlyPlatform settings.nightlyArch with
  | none =>
    refine .unknown fun q hq => ?_
    simpa using List.find?_eq_none.mp hfind q hq
  | some p =>
    obtain ⟨hp, before, after, htable, hbefore⟩ := List.find?_eq_some_iff_append.mp hfind
    obtain ⟨hos, harch⟩ : p.os = settings.nightlyPlatform ∧ p.arch = settings.nightlyArch := by simpa using hp
    exact .first htable hos harch fun q hq ⟨hos', harch'⟩ => by
      simpa [hos', harch'] using hbefore q hq

/-- It is one of the table, known or not. -/
theorem StandsFor.mem {os arch : String} {p : Platform} (h : StandsFor os arch p) : p ∈ platforms := by
  cases h with
  | first htable => simp [htable]
  | unknown => decide

end Client

end VersionPick
