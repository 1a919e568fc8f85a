import Sirannon.PathResolution
import Sirannon.Url

/-!
# The media folder

A server looks for what its clients ask for in its media folder. The three
protocols come to the media part of a request each in their own way, and all
append it to the folder.
-/

set_option autoImplicit false

namespace Sirannon.MediaFolder
open Bits HTTP Url PathResolution
open HTTPConnection (ascii)

/-! ## Paths -/

def segment (sName : Bytes) : Segment Bytes :=
  if sName = [46] then .here else if sName = [46, 46] then .up else .name sName

/-- What stands between the slashes of a path; slashes that follow each other are one. -/
def segments (sPath : Bytes) : List (Segment Bytes) :=
  ((sPath.splitOn 47).filter (· ≠ [])).map segment

def Absolute (sPath : Bytes) : Prop := sPath.head? = some 47

instance (sPath : Bytes) : Decidable (Absolute sPath) := inferInstanceAs (Decidable (_ = _))

/-- Where a path ends; `cwd` is the working directory. -/
def resolve (cwd : List Bytes) (sPath : Bytes) : List Bytes :=
  walk (if Absolute sPath then [] else cwd) (segments sPath)

/-- A server does not start without its folder, and an empty name is none. -/
structure MediaServer where
  sRoot : Bytes
  available : sRoot ≠ []

/-- `operator/` of `filesystem::path`. -/
abbrev Operator := Bytes → Bytes → Bytes

/-- It appends the segments of its right operand. -/
structure Appends (operator : Operator) : Prop where
  segments_eq : ∀ sRoot sUrl, sRoot ≠ [] →
    segments (operator sRoot sUrl) = segments sRoot ++ segments sUrl
  absolute_iff : ∀ sRoot sUrl, sRoot ≠ [] → (Absolute (operator sRoot sUrl) ↔ Absolute sRoot)

def MediaServer.getPath (s : MediaServer) (operator : Operator) (sUrl : Bytes) : Bytes :=
  operator s.sRoot sUrl

/-! ## Requests -/

def HTTPSession.analyzeUrl (sUrl : Bytes) : Except SirannonException Parsed := URL_parse sUrl .NO .NO

def RTSPSession.analyzeUrl (sUrl : Bytes) (oFormat : MuxType) (iTarget : TargetType) :
    Except SirannonException Parsed :=
  URL_parse sUrl oFormat iTarget

def RTMPSession.initStream (sApp sRequestedStream : Bytes) (oFormat : MuxType)
    (iTarget : TargetType) : Except SirannonException Parsed :=
  URL_parse (slash ++ sApp ++ slash ++ sRequestedStream) oFormat iTarget

/-- What a client sends: a URL, or the stream it wants of the application it has connected to. The
formats and targets are those of the session. -/
inductive Request
  | http (sUrl : Bytes)
  | rtsp (sUrl : Bytes) (oFormat : MuxType) (iTarget : TargetType)
  | rtmp (sApp sRequestedStream : Bytes) (oFormat : MuxType) (iTarget : TargetType)

def Request.parse : Request → Except SirannonException Parsed
  | .http sUrl => HTTPSession.analyzeUrl sUrl
  | .rtsp sUrl oFormat iTarget => RTSPSession.analyzeUrl sUrl oFormat iTarget
  | .rtmp sApp sRequestedStream oFormat iTarget =>
    RTMPSession.initStream sApp sRequestedStream oFormat iTarget

/-- The name of the file that a request is about. -/
def MediaServer.file (s : MediaServer) (operator : Operator) (r : Request) :
    Except SirannonException Bytes :=
  r.parse.map fun u => s.getPath operator u.sMedia

/-! ## Confinement -/

variable {operator : Operator} {s : MediaServer}

theorem resolve_getPath (h : Appends operator) (cwd : List Bytes) (sUrl : Bytes) :
    resolve cwd (s.getPath operator sUrl) = walk (resolve cwd s.sRoot) (segments sUrl) := by
  have habsolute : Absolute (s.getPath operator sUrl) ↔ Absolute s.sRoot :=
    h.absolute_iff s.sRoot sUrl s.available
  have hsegments : segments (s.getPath operator sUrl) = segments s.sRoot ++ segments sUrl :=
    h.segments_eq s.sRoot sUrl s.available
  rw [resolve, hsegments, walk_append, resolve]
  simp only [habsolute]

/-- The file of a request lies below the media folder exactly when its media part comes back into
whatever of the folder it leaves, and goes on. -/
theorem file_confined (h : Appends operator) (s : MediaServer) (cwd : List Bytes) (r : Request) :
    (∀ sFile, s.file operator r = .ok sFile → Below (resolve cwd s.sRoot) (resolve cwd sFile)) ↔
      ∀ u, r.parse = .ok u → Returns (resolve cwd s.sRoot) (climb (segments u.sMedia)) := by
  constructor
  · intro hbelow u hu
    have hfile : s.file operator r = .ok (s.getPath operator u.sMedia) := by
      rw [MediaServer.file, hu]
      rfl
    have hin := hbelow _ hfile
    rw [resolve_getPath h] at hin
    exact (below_walk _ _).mp hin
  · intro hreturns sFile hfile
    cases hparse : r.parse with
    | error e =>
      rw [MediaServer.file, hparse] at hfile
      cases hfile
    | ok u =>
      rw [MediaServer.file, hparse] at hfile
      cases hfile
      rw [resolve_getPath h]
      exact (below_walk _ _).mpr (hreturns u hparse)

/-- The operator for paths with slashes. -/
def joined : Operator := fun sRoot sUrl =>
  if sUrl ≠ [] ∧ ¬ Absolute sUrl ∧ sRoot.getLast? ≠ some 47 then sRoot ++ slash ++ sUrl
  else sRoot ++ sUrl

theorem segments_slash (sRoot sUrl : Bytes) :
    segments (sRoot ++ slash ++ sUrl) = segments sRoot ++ segments sUrl := by
  have hsplit : (sRoot ++ slash ++ sUrl).splitOn 47 = sRoot.splitOn 47 ++ sUrl.splitOn 47 := by
    rw [List.append_assoc]
    exact List.splitOnP_append_cons _ _ (by simp)
  rw [segments, hsplit, List.filter_append, List.map_append, segments, segments]

theorem segments_nil : segments [] = [] := rfl

theorem joined_appends : Appends joined := by
  constructor
  · intro sRoot sUrl hroot
    unfold joined
    split_ifs with hplain
    · exact segments_slash sRoot sUrl
    · by_cases hempty : sUrl = []
      · rw [hempty, List.append_nil, segments_nil, List.append_nil]
      by_cases habsolute : Absolute sUrl
      · rcases List.head?_eq_some_iff.mp habsolute with ⟨sRest, hrest⟩
        have hdouble := segments_slash [] sRest
        have hjoined := segments_slash sRoot sRest
        rw [segments_nil] at hdouble
        simp only [slash, List.nil_append, List.append_assoc, List.singleton_append] at hdouble hjoined
        rw [hrest, hjoined, hdouble]
      · have hlast : sRoot.getLast? = some 47 := by
          by_contra hlast
          exact hplain ⟨hempty, habsolute, hlast⟩
        rcases List.getLast?_eq_some_iff.mp hlast with ⟨sTop, htop⟩
        have hdouble := segments_slash sTop []
        have hjoined := segments_slash sTop sUrl
        rw [segments_nil] at hdouble
        simp only [slash, List.append_nil] at hdouble hjoined
        rw [htop, hjoined, hdouble]
  · intro sRoot sUrl hroot
    have hhead : (joined sRoot sUrl).head? = sRoot.head? := by
      unfold joined
      cases sRoot with
      | nil => exact absurd rfl hroot
      | cons b sRoot => split_ifs <;> rfl
    rw [Absolute, hhead, Absolute]

/-- The default folder. -/
def flash : MediaServer where
  sRoot := ascii "dat/media/flash"
  available := by decide +kernel

/-- A film in the folder. -/
theorem film_confined :
    Below (resolve [ascii "srv"] flash.sRoot)
      (resolve [ascii "srv"] (ascii "dat/media/flash/film/da.flv")) :=
  (file_confined joined_appends flash [ascii "srv"]
    (.http (ascii "/FILE@TS/film/da.flv/DUMMY/sirannon.ts"))).mpr (by
      intro u hu
      have hparse : (Request.http (ascii "/FILE@TS/film/da.flv/DUMMY/sirannon.ts")).parse.toOption =
        some ⟨ascii "FILE", .TS, .NO, ascii "film/da.flv"⟩ := by decide +kernel
      rw [ok_of_toOption hparse] at hu
      cases hu
      decide +kernel) _ (by
      have hoption : (flash.file joined (.http
        (ascii "/FILE@TS/film/da.flv/DUMMY/sirannon.ts"))).toOption =
          some (ascii "dat/media/flash/film/da.flv") := by decide +kernel
      exact ok_of_toOption hoption)

/-- A playlist outside the folder can be asked for. -/
theorem password_not_confined :
    ¬ ∀ (r : Request) sFile, flash.file joined r = .ok sFile →
      Below (resolve [ascii "srv"] flash.sRoot) (resolve [ascii "srv"] sFile) := by
  intro hall
  have hfile : flash.file joined (.http (ascii "/M3U-FILE/../../../../etc/passwd")) =
      .ok (ascii "dat/media/flash/../../../../etc/passwd") := by
    have hoption : (flash.file joined (.http (ascii "/M3U-FILE/../../../../etc/passwd"))).toOption =
      some (ascii "dat/media/flash/../../../../etc/passwd") := by decide +kernel
    exact ok_of_toOption hoption
  have hbelow := hall _ _ hfile
  revert hbelow
  decide +kernel

end Sirannon.MediaFolder
