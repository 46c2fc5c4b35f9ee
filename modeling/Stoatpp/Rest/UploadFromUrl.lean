import Mathlib.Data.List.DropRight
import Stoatpp.Library.Delimited
import Stoatpp.Rest.Upload

/-!
# `upload_from_url`

A file is fetched and handed on to `upload_file`. Its media type is read off its first bytes, else
off the answer's header, else it is the one the caller gave; the file name takes the extension of
the type. What comes back is the id in the last answer, or nothing.
-/

namespace Stoatpp.Rest
open Stoatpp.Library

/-! ## The address -/

structure FetchTarget where
  scheme : List Char
  host : List Char
  path : List Char
  deriving DecidableEq

def stripScheme (url : List Char) : List Char × List Char :=
  let https := "https://".toList
  let http := "http://".toList
  if https.isPrefixOf url then (https, url.drop 8)
  else if http.isPrefixOf url then (http, url.drop 7)
  else ([], url)

def fetchTarget (imageUrl : String) : FetchTarget :=
  let (scheme, url) := stripScheme imageUrl.toList
  match splitFirst '/' url with
  | none => ⟨scheme, url, ['/']⟩
  | some (host, path) => ⟨scheme, host, '/' :: path⟩

theorem drop_scheme {start url : List Char} (h : start.isPrefixOf url = true) :
    start ++ url.drop start.length = url :=
  List.prefix_iff_eq_append.mp (List.isPrefixOf_iff_prefix.mp h)

/-- The scheme is the first of the two that the URL begins with, the host all behind it up to the
first slash, and the path that slash and the rest; without a slash the path is `/`. -/
structure Addresses (url : List Char) (t : FetchTarget) : Prop where
  scheme : t.scheme = "https://".toList ∧ "https://".toList <+: url ∨
    t.scheme = "http://".toList ∧ "http://".toList <+: url ∨
    t.scheme = [] ∧ ¬ "https://".toList <+: url ∧ ¬ "http://".toList <+: url
  host : '/' ∉ t.host
  path : (∃ rest, t.path = '/' :: rest ∧ url = t.scheme ++ t.host ++ t.path) ∨
    t.path = ['/'] ∧ url = t.scheme ++ t.host

theorem stripScheme_cases (url : List Char) : ∃ scheme behind, stripScheme url = (scheme, behind) ∧
    url = scheme ++ behind ∧ (scheme = "https://".toList ∧ "https://".toList <+: url ∨
      scheme = "http://".toList ∧ "http://".toList <+: url ∨
      scheme = [] ∧ ¬ "https://".toList <+: url ∧ ¬ "http://".toList <+: url) := by
  unfold stripScheme
  dsimp only
  split_ifs with hs hp
  · exact ⟨_, _, rfl, (drop_scheme hs).symm, Or.inl ⟨rfl, List.isPrefixOf_iff_prefix.mp hs⟩⟩
  · exact ⟨_, _, rfl, (drop_scheme hp).symm, Or.inr (Or.inl ⟨rfl, List.isPrefixOf_iff_prefix.mp hp⟩)⟩
  · exact ⟨_, _, rfl, rfl, Or.inr (Or.inr ⟨rfl, fun h => hs (List.isPrefixOf_iff_prefix.mpr h),
      fun h => hp (List.isPrefixOf_iff_prefix.mpr h)⟩)⟩

theorem fetchTarget_addresses (imageUrl : String) : Addresses imageUrl.toList (fetchTarget imageUrl) := by
  obtain ⟨scheme, behind, hstrip, hurl, hscheme⟩ := stripScheme_cases imageUrl.toList
  simp only [fetchTarget, hstrip]
  by_cases hslash : '/' ∈ behind
  · obtain ⟨host, path, hparts, hhost⟩ := List.eq_append_cons_of_mem hslash
    rw [hparts, splitFirst_append hhost]
    exact ⟨hscheme, hhost, Or.inl ⟨path, rfl, by rw [hurl, hparts, List.append_assoc]⟩⟩
  · rw [splitFirst_eq_none hslash]
    exact ⟨hscheme, hslash, Or.inr ⟨rfl, hurl⟩⟩

/-- A query in front of the first slash goes to the host. -/
example : fetchTarget "https://example.com?next=/a.png" =
    ⟨"https://".toList, "example.com?next=".toList, "/a.png".toList⟩ := by decide

/-! ## The media type -/

def blank (c : Char) : Bool := c = ' ' || c = '\t'

/-- The header up to its parameters. -/
def mediaType (ctHeader : String) : String :=
  let ct := ((splitFirst ';' ctHeader.toList).map (·.1)).getD ctHeader.toList
  String.ofList ((ct.dropWhile blank).rdropWhile blank)

def sniff (data : List UInt8) : Option String :=
  if [0xFF, 0xD8, 0xFF].isPrefixOf data then some "image/jpeg"
  else if [0x89, 0x50, 0x4E, 0x47].isPrefixOf data then some "image/png"
  else if [0x47, 0x49, 0x46, 0x38].isPrefixOf data then some "image/gif"
  else if [0x52, 0x49, 0x46, 0x46].isPrefixOf data ∧ [0x57, 0x45, 0x42, 0x50].isPrefixOf (data.drop 8) then
    some "image/webp"
  else none

def effectiveMime (mimeType ctHeader : String) (data : List UInt8) : String :=
  (sniff data).getD (if mediaType ctHeader = "" then mimeType else mediaType ctHeader)

/-! ## The file name -/

def targetExt (mime : String) : Option (List Char) :=
  if mime = "image/jpeg" ∨ mime = "image/jpg" then some ".jpg".toList
  else if mime = "image/png" then some ".png".toList
  else if mime = "image/gif" then some ".gif".toList
  else if mime = "image/webp" then some ".webp".toList
  else if mime = "image/svg+xml" then some ".svg".toList
  else none

def stem (filename : List Char) : List Char := ((splitLast '.' filename).map (·.1)).getD filename

def effectiveFilename (mime filename : String) : String :=
  match targetExt mime with
  | some ext => String.ofList (stem filename.toList ++ ext)
  | none => filename

theorem targetExt_dot {mime : String} {ext : List Char} (h : targetExt mime = some ext) :
    ∃ rest, ext = '.' :: rest ∧ '.' ∉ rest := by
  unfold targetExt at h
  split_ifs at h <;> obtain rfl := Option.some.inj h <;> exact ⟨_, rfl, by decide⟩

theorem stem_append {name rest : List Char} (h : '.' ∉ rest) : stem (name ++ '.' :: rest) = name := by
  rw [stem, splitLast_append h]
  rfl

/-- The name ends in the extension of the type, and choosing the name again changes nothing. -/
theorem effectiveFilename_extension {mime : String} {ext : List Char} (filename : String)
    (h : targetExt mime = some ext) :
    (effectiveFilename mime filename).toList = stem filename.toList ++ ext ∧
      effectiveFilename mime (effectiveFilename mime filename) = effectiveFilename mime filename := by
  obtain ⟨rest, rfl, hrest⟩ := targetExt_dot h
  simp only [effectiveFilename, h, String.toList_ofList, stem_append hrest, and_self]

example : effectiveFilename "image/jpeg" "cat.v2.png" = "cat.v2.jpg" := by decide

/-! ## The upload -/

/-- The header is empty where the answer has none. -/
structure FetchReply where
  status : ℤ
  body : List UInt8
  contentType : String

def FetchReply.usable (r : FetchReply) : Prop := 200 ≤ r.status ∧ r.status < 300 ∧ r.body ≠ []

instance (r : FetchReply) : Decidable r.usable := inferInstanceAs (Decidable (_ ∧ _ ∧ _))

inductive MediaEvent where
  | fetched (target : FetchTarget)
  | upload (e : UploadEvent)

def attachment (filename mimeType : String) (r : FetchReply) : Upload :=
  let mime := effectiveMime mimeType r.contentType r.body
  ⟨"/attachments", effectiveFilename mime filename, r.body, mime⟩

section
variable (cfg : Config) (dump : Json → Option String)

/-- A success without an id is logged with the answer's body, which `dump` may throw on. -/
def fileId (res : Response) : Outcome Fault MediaEvent String :=
  if res.success then
    match res.body.text? "id" with
    | some id => return id
    | none => if (dump res.body).isSome then return "" else .throw .dump
  else return ""

def uploadFromUrl (imageUrl filename mimeType : String) (fetch : Option FetchReply)
    (script : List UploadAttempt) (now : ℤ) : Outcome Fault MediaEvent String :=
  if imageUrl = "" then return ""
  else do
    .emit [.fetched (fetchTarget imageUrl)]
    match fetch with
    | none => return ""
    | some r =>
      if r.status < 200 ∨ 300 ≤ r.status then return ""
      else if r.body = [] then return ""
      else do
        let (res, _) ← ((uploadFile cfg (attachment filename mimeType r) script now).mapEvents .upload).orElse
          Empty.elim
        fileId dump res

end

variable {cfg : Config} {dump : Json → Option String} {file : Upload} {a : UploadAttempt}
  {pre rest script : List UploadAttempt} {s s' : ℤ × ℤ} {t : List UploadEvent} {filename mimeType : String}
  {r : FetchReply} {fetch : Option FetchReply} {now : ℤ}

/-- The posted part agrees with the fetched bytes, and its name with its type. -/
structure Agrees (filename : String) (r : FetchReply) (file : Upload) : Prop where
  path : file.path = "/attachments"
  data : file.data = r.body
  sniffed : ∀ mime, sniff r.body = some mime → file.mimeType = mime
  declared : sniff r.body = none → mediaType r.contentType ≠ "" → file.mimeType = mediaType r.contentType
  named : ∀ ext, targetExt file.mimeType = some ext →
    file.filename.toList = stem filename.toList ++ ext
  renamed : effectiveFilename file.mimeType file.filename = file.filename

theorem attachment_agrees (filename mimeType : String) (r : FetchReply) :
    Agrees filename r (attachment filename mimeType r) where
  path := rfl
  data := rfl
  sniffed mime h := by rw [attachment, effectiveMime, h, Option.getD_some]
  declared h hct := by rw [attachment, effectiveMime, h, Option.getD_none, if_neg hct]
  named ext h := (effectiveFilename_extension filename h).1
  renamed := by
    simp only [attachment]
    cases h : targetExt (effectiveMime mimeType r.contentType r.body) with
    | none => simp only [effectiveFilename, h]
    | some ext => exact (effectiveFilename_extension filename h).2

/-! ## The attempts of one upload -/

theorem allAgain_posts (h : AllAgain (uploadAttempt cfg file) pre s t s') :
    ∀ e ∈ t, ∃ time, e = .posted file time := by
  induction h with
  | nil s => exact List.forall_mem_nil _
  | @cons a rest s s' s'' t t' ha _ ih =>
    have htrace := @uploadAttempt_trace cfg file a s
    rw [ha] at htrace
    intro e he
    rcases List.mem_append.mp he with he | he
    · exact ⟨s.2, List.mem_singleton.mp (htrace ▸ he)⟩
    · exact ih e he

theorem exists_allAgain (hall : ∀ a ∈ pre, a.lost = true ∨ a.limited = true)
    (hn : (pre.length : ℤ) ≤ max 0 (cfg.httpRetryCount - s.1)) :
    ∃ t s', AllAgain (uploadAttempt cfg file) pre s t s' := by
  induction pre generalizing s with
  | nil => exact ⟨[], s, .nil s⟩
  | cons a rest ih =>
    rw [List.length_cons] at hn
    have hs : s.1 < cfg.httpRetryCount := by omega
    have hagain := @uploadAttempt_again cfg file a s (hall a List.mem_cons_self) hs
    obtain ⟨t, s', hrest⟩ := ih (fun b hb => hall b (List.mem_cons_of_mem _ hb))
      (s := (s.1 + 1, s.2 + a.latency + uploadPause cfg a * ms + a.pause)) (by dsimp only; omega)
    exact ⟨_, s', .cons hagain hrest⟩

/-- The attempts in front of the one whose answer is returned. -/
def Answered (cfg : Config) (script : List UploadAttempt) (a : UploadAttempt) : Prop :=
  ∃ pre rest, script = pre ++ a :: rest ∧ (∀ b ∈ pre, b.lost = true ∨ b.limited = true) ∧
    (pre.length : ℤ) ≤ max 0 cfg.httpRetryCount

theorem uploadFile_runs (cfg : Config) (file : Upload) (script : List UploadAttempt) (now : ℤ) :
    ∃ t status, uploadFile cfg file script now = ⟨t, status⟩ ∧ (t.length : ℤ) ≤ max 0 cfg.httpRetryCount + 1 ∧
      (∀ e ∈ t, ∃ time, e = .posted file time) ∧
      (status = .running ∨ ∃ a ended, status = .done (a.response, ended) ∧ Answered cfg script a) := by
  rcases retryLoop_split (uploadAttempt cfg file) script (0, now)
    with ⟨t, s', hgo, hloop⟩ | ⟨pre, a, rest, t, s', rfl, hgo, hlast, hloop⟩
  · obtain ⟨-, hposts, hcount, hle⟩ := allAgain_upload hgo
    refine ⟨t, _, hloop, ?_, allAgain_posts hgo, Or.inl rfl⟩
    by_cases hs : script = []
    · rw [hposts, hs, List.length_nil]
      omega
    · have hbudget := hle hs
      omega
  · obtain ⟨hall, hposts, hcount, hle⟩ := allAgain_upload hgo
    have hpre : (pre.length : ℤ) ≤ max 0 cfg.httpRetryCount := by
      by_cases hp : pre = []
      · rw [hp, List.length_nil]
        omega
      · have hbudget := hle hp
        omega
    have hend : a.lost = true ∨ a.limited = true → cfg.httpRetryCount ≤ s'.1 := fun ha => by
      by_contra hs
      obtain ⟨s'', hs''⟩ := uploadAttempt_inl_iff.mpr ⟨ha, not_le.mp hs⟩
      exact hlast s'' hs''
    refine ⟨t ++ [.posted file s'.2], .done (a.response, s'.2 + a.latency), ?_, ?_, ?_,
      Or.inr ⟨a, _, rfl, pre, rest, rfl, hall, hpre⟩⟩
    · rw [uploadFile, hloop, retryLoop, uploadAttempt_last hend]
      simp [Outcome.andThen, Outcome.ret]
    · rw [List.length_append, hposts, List.length_singleton]
      push_cast
      omega
    · intro e he
      rcases List.mem_append.mp he with he | he
      · exact allAgain_posts hgo e he
      · exact ⟨_, List.mem_singleton.mp he⟩

theorem uploadFile_posts (cfg : Config) (file : Upload) (hscript : script ≠ []) (now : ℤ) :
    .posted file now ∈ (uploadFile cfg file script now).trace := by
  obtain ⟨a, rest, rfl⟩ := List.exists_cons_of_ne_nil hscript
  have hfirst : .posted file now ∈ (uploadAttempt cfg file a (0, now)).trace := by
    rw [uploadAttempt_trace]
    exact List.mem_singleton_self _
  exact (Outcome.trace_prefix_andThen (uploadAttempt cfg file a (0, now)) _).subset hfirst

theorem deciding_of_success (h : a.response.success) : ¬ (a.lost = true ∨ a.limited = true) := by
  unfold UploadAttempt.response UploadAttempt.lost UploadAttempt.limited Response.success at *
  cases ht : a.transport with
  | lost error => simp [ht] at h
  | reply r =>
    simp only [ht] at h
    simp only [Bool.false_eq_true, false_or, decide_eq_true_eq]
    omega

theorem uploadFile_answered (hscript : Answered cfg script a) (hsuccess : a.response.success) :
    ∃ t ended, uploadFile cfg file script now = ⟨t, .done (a.response, ended)⟩ := by
  obtain ⟨pre, rest, rfl, hall, hn⟩ := hscript
  obtain ⟨t, s', hgo⟩ := @exists_allAgain cfg file pre (0, now) hall (by simpa using hn)
  have hlast := @uploadAttempt_last cfg file a s' fun ha =>
    absurd ha (deciding_of_success hsuccess)
  refine ⟨t ++ [.posted file s'.2], s'.2 + a.latency, ?_⟩
  rw [uploadFile, hgo.loop, retryLoop, hlast]
  simp [Outcome.andThen, Outcome.ret]

/-! ## The whole call -/

variable {imageUrl id : String}

theorem uploadFromUrl_idle (h : imageUrl = "" ∨ ∀ r, fetch = some r → ¬ r.usable) :
    uploadFromUrl cfg dump imageUrl filename mimeType fetch script now =
      ⟨if imageUrl = "" then [] else [.fetched (fetchTarget imageUrl)], .done ""⟩ := by
  unfold uploadFromUrl
  by_cases hurl : imageUrl = ""
  · simp only [hurl, if_true]
    rfl
  · simp only [hurl, if_false]
    cases hf : fetch with
    | none => rfl
    | some r =>
      have hr := h.resolve_left hurl r hf
      by_cases hstatus : r.status < 200 ∨ 300 ≤ r.status
      · simp only [hstatus, if_true]
        rfl
      · have hbody : r.body = [] := by
          by_contra hbody
          rw [not_or, not_lt, not_le] at hstatus
          exact hr ⟨hstatus.1, hstatus.2, hbody⟩
        simp only [hstatus, hbody, if_true, if_false]
        rfl

theorem fileId_trace (res : Response) : (fileId dump res).trace = [] := by
  unfold fileId
  by_cases hs : res.success
  · rw [if_pos hs]
    cases res.body.text? "id" with
    | some id => rfl
    | none => by_cases hd : (dump res.body).isSome = true <;> simp [hd]
  · rw [if_neg hs]
    rfl

theorem uploadFromUrl_fetched (hurl : imageUrl ≠ "") (hr : r.usable) {t : List UploadEvent}
    {status : Status Empty (Response × ℤ)}
    (hrun : uploadFile cfg (attachment filename mimeType r) script now = ⟨t, status⟩) :
    uploadFromUrl cfg dump imageUrl filename mimeType (some r) script now =
      ⟨.fetched (fetchTarget imageUrl) :: t.map .upload,
        match status with
        | .done (res, _) => (fileId dump res).status
        | .thrown _ | .running => .running⟩ := by
  have hstatus : ¬ (r.status < 200 ∨ 300 ≤ r.status) := by
    obtain ⟨hlo, hhi, -⟩ := hr
    omega
  have hbody : r.body ≠ [] := hr.2.2
  unfold uploadFromUrl
  simp only [hurl, hstatus, hbody, if_false, hrun, Outcome.bind_eq_andThen]
  cases status with
  | done x => simp [Outcome.mapEvents, Outcome.orElse, Outcome.andThen, fileId_trace, Outcome.emit]
  | thrown c => exact c.elim
  | running => rfl

theorem fileId_done (hid : id ≠ "") {res : Response} :
    (fileId dump res).status = .done id ↔ res.success ∧ res.body.text? "id" = some id := by
  unfold fileId
  by_cases hs : res.success
  · simp only [hs, if_true, true_and]
    cases res.body.text? "id" with
    | some other => simp
    | none =>
      dsimp only
      split_ifs <;> simp [Outcome.throw, Ne.symm hid]
  · simp only [hs, if_false, false_and, iff_false]
    simpa using Ne.symm hid

/-- The URL is taken apart at its scheme and its first slash. The bytes of a good answer are posted,
and nothing else is, under a name and a type that agree with them, and an id comes back exactly if
the answer that ends the upload gives it. -/
theorem url_uploaded (cfg : Config) (dump : Json → Option String) (imageUrl filename mimeType : String)
    (fetch : Option FetchReply) (script : List UploadAttempt) (now : ℤ) :
    Addresses imageUrl.toList (fetchTarget imageUrl) ∧
    (∃ posts : List UploadEvent,
      (uploadFromUrl cfg dump imageUrl filename mimeType fetch script now).trace =
        (if imageUrl = "" then [] else .fetched (fetchTarget imageUrl) :: posts.map .upload) ∧
      (posts.length : ℤ) ≤ max 0 cfg.httpRetryCount + 1 ∧
      (∀ e ∈ posts, ∃ r file time, fetch = some r ∧ r.usable ∧ Agrees filename r file ∧
        e = .posted file time) ∧
      (imageUrl ≠ "" → (∃ r, fetch = some r ∧ r.usable) → script ≠ [] → posts ≠ [])) ∧
    ∀ id, id ≠ "" →
      ((uploadFromUrl cfg dump imageUrl filename mimeType fetch script now).status = .done id ↔
        imageUrl ≠ "" ∧ (∃ r, fetch = some r ∧ r.usable) ∧
        ∃ a, Answered cfg script a ∧ a.response.success ∧ a.response.body.text? "id" = some id) := by
  refine ⟨fetchTarget_addresses imageUrl, ?_⟩
  by_cases hidle : imageUrl = "" ∨ ∀ r, fetch = some r → ¬ r.usable
  · rw [uploadFromUrl_idle hidle]
    have hnone : (([] : List UploadEvent).length : ℤ) ≤ max 0 cfg.httpRetryCount + 1 := by
      rw [List.length_nil]
      omega
    have hunusable : ¬ (imageUrl ≠ "" ∧ ∃ r, fetch = some r ∧ r.usable) := fun ⟨hurl, r, hf, hr⟩ =>
      hidle.elim hurl fun hno => hno r hf hr
    refine ⟨⟨[], rfl, hnone, List.forall_mem_nil _, fun hurl hr => absurd ⟨hurl, hr⟩ hunusable⟩, fun id hid => ?_⟩
    exact iff_of_false (fun h => hid (Status.done.inj h).symm) fun ⟨hurl, hr, _⟩ => hunusable ⟨hurl, hr⟩
  · push Not at hidle
    obtain ⟨hurl, r, rfl, hr⟩ := hidle
    obtain ⟨t, status, hrun, hlen, hposts, hend⟩ :=
      uploadFile_runs cfg (attachment filename mimeType r) script now
    rw [uploadFromUrl_fetched hurl hr hrun]
    refine ⟨⟨t, by rw [if_neg hurl], hlen, fun e he => ?_, fun _ _ hscript => ?_⟩, fun id hid => ?_⟩
    · obtain ⟨time, rfl⟩ := hposts e he
      exact ⟨r, _, time, rfl, hr, attachment_agrees filename mimeType r, rfl⟩
    · have hfirst := uploadFile_posts cfg (attachment filename mimeType r) hscript now
      rw [hrun] at hfirst
      exact List.ne_nil_of_mem hfirst
    · constructor
      · intro hdone
        rcases hend with rfl | ⟨a, ended, rfl, ha⟩
        · cases hdone
        · exact ⟨hurl, ⟨r, rfl, hr⟩, a, ha, (fileId_done hid).mp hdone⟩
      · rintro ⟨-, -, a, ha, hsuccess, hbody⟩
        obtain ⟨t', ended, hrun'⟩ := @uploadFile_answered cfg
          (attachment filename mimeType r) a script now ha hsuccess
        obtain ⟨-, rfl⟩ := Outcome.mk.inj (hrun.symm.trans hrun')
        exact (fileId_done hid).mpr ⟨hsuccess, hbody⟩

end Stoatpp.Rest
