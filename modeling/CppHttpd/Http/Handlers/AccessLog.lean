import CppHttpd.Http.Core.RequestBytes
import CppHttpd.Os.FileSystem
import CppHttpd.Os.Formatting

/-!
# The access log

`phase_log` formats an entry into a buffer of fixed size, and the logger writes
it as one line.  Nothing of the request is escaped, so that the bytes of the URI
decide whether the entry can be read again.
-/

namespace CppHttpd

open CppHttpd.Foundation

/-! ## Writing an entry -/

/--
What `gmtime_r` makes of the clock of the machine, which counts nanoseconds in 64
bits and so has a year of four digits.
-/
structure Tm where
  mday : Fin 32
  mon : Fin 12
  /-- Years since 1900. -/
  year : Fin 8100
  hour : Fin 24
  min : Fin 60
  sec : Fin 61

def months : Vector Bytes 12 :=
  #v[ascii "Jan", ascii "Feb", ascii "Mar", ascii "Apr", ascii "May", ascii "Jun",
    ascii "Jul", ascii "Aug", ascii "Sep", ascii "Oct", ascii "Nov", ascii "Dec"]

/-- What stands between the brackets of a timestamp. -/
def Tm.text (tm : Tm) : Bytes :=
  zeroPadded 2 tm.mday ++ ascii "/" ++ months.get tm.mon ++ ascii "/" ++
    zeroPadded 4 (tm.year + 1900) ++ ascii ":" ++ zeroPadded 2 tm.hour ++ ascii ":" ++
    zeroPadded 2 tm.min ++ ascii ":" ++ zeroPadded 2 tm.sec ++ ascii " +0000"

def timestamp (tm : Tm) : Bytes := snprintf 32 (ascii "[" ++ tm.text ++ ascii "]")

/-- What `inet_ntop` writes for an IPv4 address. -/
def inetNtop (a b c d : Byte) : Bytes :=
  toDecimal a.toNat ++ ascii "." ++ toDecimal b.toNat ++ ascii "." ++ toDecimal c.toNat ++
    ascii "." ++ toDecimal d.toNat

/-- What `accept_connection` tells of the client, if it is passed on. -/
inductive ClientRemoteAddr where
  | absent
  | empty
  | inet (a b c d : Byte)
  deriving DecidableEq, Repr

def ClientRemoteAddr.value : ClientRemoteAddr → Option Bytes
  | .absent => none
  | .empty => some []
  | .inet a b c d => some (inetNtop a b c d)

namespace AccessLog

def clientIp (clientRemoteAddr : Option Bytes) : Bytes :=
  match clientRemoteAddr with
  | none => ascii "-"
  | some addr => if addr = [] then ascii "-" else addr

def requestLine (request : HttpRequest) : Bytes :=
  request.methodStr ++ ascii " " ++ request.uri ++ ascii " HTTP/1.1"

def bytesStr (response : HttpResponse) : Bytes :=
  match response.headers.lookup (ascii "Content-Length") with
  | some length => length
  | none =>
      if response.bodyFd.isSome then HttpResponse.intToDecimal response.bodyFdSize
      else toDecimal response.body.length

def phaseLog (tm : Tm) (clientRemoteAddr : Option Bytes) (request : HttpRequest)
    (response : HttpResponse) : Bytes :=
  snprintf 1024 (cString (clientIp clientRemoteAddr) ++ ascii " - - " ++ timestamp tm ++
    ascii " \"" ++ cString (requestLine request) ++ ascii "\" " ++
    HttpResponse.intToDecimal response.statusCode.value ++ ascii " " ++
    cString (bytesStr response))

/-- What `Logger::write` adds to the log. -/
def write (entry : Bytes) : Bytes := entry ++ [LF]

/-! ## Reading an entry -/

structure LogEntry where
  client : Bytes
  time : Bytes
  method : Bytes
  uri : Bytes
  version : Bytes
  status : Bytes
  bytes : Bytes
  deriving DecidableEq, Repr

/-- The fields of the first line of a log. -/
def readEntry (log : Bytes) : Option LogEntry := do
  let (line, _) ← cutAt LF log
  let (client, s) ← cutAt SP line
  let s ← expect (ascii "- - [") s
  let (time, s) ← cutAt (byteOf ']') s
  let s ← expect (ascii " \"") s
  let (requestLine, s) ← cutAt (byteOf '"') s
  let s ← expect (ascii " ") s
  let (status, bytes) ← cutAt SP s
  let (method, s) ← cutAt SP requestLine
  let (uri, version) ← cutAt SP s
  return { client, time, method, uri, version, status, bytes }

def LogEntry.requestLine (e : LogEntry) : Bytes :=
  e.method ++ SP :: (e.uri ++ SP :: e.version)

def LogEntry.toBytes (e : LogEntry) : Bytes :=
  e.client ++ SP :: (ascii "- - [" ++ (e.time ++ byteOf ']' :: (ascii " \"" ++
    (e.requestLine ++ byteOf '"' :: (ascii " " ++ (e.status ++ SP :: e.bytes))))))

/-- In no field there is the separator that ends it. -/
structure LogEntry.Separated (e : LogEntry) : Prop where
  client : SP ∉ e.client
  time : byteOf ']' ∉ e.time
  requestLine : byteOf '"' ∉ e.requestLine
  status : SP ∉ e.status
  method : SP ∉ e.method
  uri : SP ∉ e.uri

theorem readEntry_eq_some_iff {log : Bytes} {e : LogEntry} :
    readEntry log = some e ↔
      e.Separated ∧ LF ∉ e.toBytes ∧ ∃ rest, log = e.toBytes ++ LF :: rest := by
  simp only [readEntry, Option.bind_eq_bind, Option.bind_eq_some_iff, Prod.exists,
    cutAt_eq_some_iff, expect_eq_some_iff, Option.pure_def, Option.some.injEq]
  constructor
  · rintro ⟨line, rest, ⟨hline, rfl⟩, client, s, ⟨hclient, rfl⟩, s, rfl, time, s, ⟨htime, rfl⟩,
      s, rfl, words, s, ⟨hwords, rfl⟩, s, rfl, status, bytes, ⟨hstatus, rfl⟩, method, s,
      ⟨hmethod, rfl⟩, uri, version, ⟨huri, rfl⟩, rfl⟩
    exact ⟨⟨hclient, htime, hwords, hstatus, hmethod, huri⟩, hline, rest, rfl⟩
  · rintro ⟨hsep, hline, rest, rfl⟩
    exact ⟨_, rest, ⟨hline, rfl⟩, _, _, ⟨hsep.client, rfl⟩, _, rfl, _, _, ⟨hsep.time, rfl⟩,
      _, rfl, _, _, ⟨hsep.requestLine, rfl⟩, _, rfl, _, _, ⟨hsep.status, rfl⟩, _, _,
      ⟨hsep.method, rfl⟩, _, _, ⟨hsep.uri, rfl⟩, rfl⟩

/-- Of two entries with the same request, status and size none goes on behind the other. -/
theorem LogEntry.eq_of_append {e full : LogEntry} (he : e.Separated) (hfull : full.Separated)
    (hmethod : e.method = full.method) (huri : e.uri = full.uri)
    (hstatus : e.status = full.status) (hbytes : e.bytes = full.bytes) {tail : Bytes}
    (h : full.toBytes = e.toBytes ++ tail) : e = full := by
  simp only [LogEntry.toBytes, List.append_assoc, List.cons_append] at h
  obtain ⟨hclient, h⟩ := append_cons_inj hfull.client he.client h
  obtain ⟨htime, h⟩ := append_cons_inj hfull.time he.time (List.append_cancel_left h)
  obtain ⟨hline, -⟩ := append_cons_inj hfull.requestLine he.requestLine (List.append_cancel_left h)
  have hversion : full.version = e.version := by
    simpa [LogEntry.requestLine, hmethod, huri] using hline
  cases e
  cases full
  simp_all

/-! ## The bytes of the fields -/

theorem not_mem_timeText {c : Byte} (h : isDigit c = false) (hmarks : c ∉ ascii "/: +0000")
    (hmonths : ∀ mon, c ∉ months.get mon) (tm : Tm) : c ∉ tm.text := by
  have hmark : ∀ {text : Bytes}, text ⊆ ascii "/: +0000" → c ∉ text :=
    fun hsub hmem => hmarks (hsub hmem)
  have hslash : c ∉ ascii "/" := hmark (by decide)
  have hcolon : c ∉ ascii ":" := hmark (by decide)
  have hzone : c ∉ ascii " +0000" := hmark (by decide)
  simp only [Tm.text, List.mem_append, not_or]
  exact ⟨⟨⟨⟨⟨⟨⟨⟨⟨⟨⟨not_mem_zeroPadded h _ _, hslash⟩, hmonths _⟩, hslash⟩,
    not_mem_zeroPadded h _ _⟩, hcolon⟩, not_mem_zeroPadded h _ _⟩, hcolon⟩,
    not_mem_zeroPadded h _ _⟩, hcolon⟩, not_mem_zeroPadded h _ _⟩, hzone⟩

theorem not_mem_clientIp {c : Byte} (h : isDigit c = false) (hmarks : c ∉ ascii ".-")
    (client : ClientRemoteAddr) : c ∉ clientIp client.value := by
  have hdash : c ∉ ascii "-" := fun hmem => hmarks (List.mem_cons_of_mem _ hmem)
  have hdot : c ∉ ascii "." := fun hmem => hmarks (by simp_all [ascii])
  cases client with
  | absent => exact hdash
  | empty => exact hdash
  | inet a b c' d =>
      simp only [ClientRemoteAddr.value, clientIp]
      split_ifs
      · exact hdash
      · simp only [inetNtop, List.mem_append, not_or]
        exact ⟨⟨⟨⟨⟨⟨not_mem_toDecimal h _, hdot⟩, not_mem_toDecimal h _⟩, hdot⟩,
          not_mem_toDecimal h _⟩, hdot⟩, not_mem_toDecimal h _⟩

theorem length_timeText (tm : Tm) : tm.text.length = 26 := by
  have hmonth : ∀ mon, (months.get mon).length = 3 := by decide
  have htwo : ∀ n : Nat, n < 100 → (zeroPadded 2 n).length = 2 := fun n hn =>
    length_zeroPadded (by decide) hn
  have hday := htwo tm.mday (by omega)
  have hhour := htwo tm.hour (by omega)
  have hmin := htwo tm.min (by omega)
  have hsec := htwo tm.sec (by omega)
  have hyear : (zeroPadded 4 (tm.year + 1900)).length = 4 := length_zeroPadded (by decide) (by omega)
  simp [Tm.text, ascii, hday, hhour, hmin, hsec, hyear, hmonth tm.mon]

theorem timestamp_eq (tm : Tm) : timestamp tm = ascii "[" ++ tm.text ++ ascii "]" := by
  apply snprintf_of_lt
  simp [ascii, length_timeText]

/-! ## Entries that are read back -/

/-- The reader gets what the entry was written of. -/
def ReadsBack (tm : Tm) (client : ClientRemoteAddr) (request : HttpRequest)
    (response : HttpResponse) : Prop :=
  ∃ e, readEntry (write (phaseLog tm client.value request response)) = some e ∧
    e.method = request.methodStr ∧ e.uri = request.uri ∧
    e.status = HttpResponse.intToDecimal response.statusCode.value ∧
    e.bytes = bytesStr response

/-- The format and the time take 48 of the 1023 bytes. -/
structure Loggable (client : ClientRemoteAddr) (request : HttpRequest)
    (response : HttpResponse) : Prop where
  uri : NUL ∉ request.uri ∧ byteOf '"' ∉ request.uri
  bytes : NUL ∉ bytesStr response ∧ LF ∉ bytesStr response
  length : (clientIp client.value).length + request.methodStr.length + request.uri.length +
    (HttpResponse.intToDecimal response.statusCode.value).length + (bytesStr response).length ≤ 975

/-- The entry as it would be without a limit on its length. -/
def fullEntry (tm : Tm) (client : ClientRemoteAddr) (request : HttpRequest)
    (response : HttpResponse) : LogEntry where
  client := clientIp client.value
  time := tm.text
  method := request.methodStr
  uri := request.uri
  version := ascii "HTTP/1.1"
  status := HttpResponse.intToDecimal response.statusCode.value
  bytes := bytesStr response

section

variable {tm : Tm} {client : ClientRemoteAddr} {request : HttpRequest} {response : HttpResponse}

theorem length_fullEntry : (fullEntry tm client request response).toBytes.length =
    (clientIp client.value).length + request.methodStr.length + request.uri.length +
    (HttpResponse.intToDecimal response.statusCode.value).length +
    (bytesStr response).length + 48 := by
  simp [fullEntry, LogEntry.toBytes, LogEntry.requestLine, length_timeText, ascii]
  omega

theorem fullEntry_separated (h : RequestParser.OneLine request)
    (hquote : byteOf '"' ∉ request.uri) : (fullEntry tm client request response).Separated where
  client := not_mem_clientIp (by decide) (by decide) client
  time := not_mem_timeText (by decide) (by decide) (by decide) tm
  requestLine := by
    have hmethod : byteOf '"' ∉ request.method.toBytes := by cases request.method <;> decide
    have hblank : byteOf '"' ≠ SP := by decide
    have hversion : byteOf '"' ∉ ascii "HTTP/1.1" := by decide
    simp only [LogEntry.requestLine, fullEntry, h.method, List.mem_append, List.mem_cons, not_or]
    exact ⟨hmethod, hblank, hquote, hblank, hversion⟩
  status := not_mem_intToDecimal (by decide) (by decide) _
  method := by
    simp only [fullEntry, h.method]
    cases request.method <;> decide
  uri := h.uri.1

theorem not_mem_phaseLog {c : Byte} (hdigit : isDigit c = false) (hmarks : c ∉ ascii ".-/: +0\"[]")
    (hmonths : ∀ mon, c ∉ months.get mon) (hline : c ∉ cString (requestLine request))
    (hbytes : c ∉ cString (bytesStr response)) :
    c ∉ phaseLog tm client.value request response := by
  have hmark : ∀ {text : Bytes}, text ⊆ ascii ".-/: +0\"[]" → c ∉ text :=
    fun hsub hmem => hmarks (hsub hmem)
  have hclient : c ∉ cString (clientIp client.value) :=
    not_mem_cString _ (not_mem_clientIp hdigit (hmark (by decide)) client)
  have htime : c ∉ timestamp tm := by
    simp only [timestamp_eq, List.mem_append, not_or]
    exact ⟨⟨hmark (by decide), not_mem_timeText hdigit (hmark (by decide)) hmonths tm⟩,
      hmark (by decide)⟩
  have hstatus := not_mem_intToDecimal hdigit (hmark (by decide)) response.statusCode.value
  apply mt List.mem_of_mem_take
  simp only [List.mem_append, not_or]
  exact ⟨⟨⟨⟨⟨⟨⟨⟨hclient, hmark (by decide)⟩, htime⟩, hmark (by decide)⟩, hline⟩,
    hmark (by decide)⟩, hstatus⟩, hmark (by decide)⟩, hbytes⟩

theorem nul_not_mem_cString (s : Bytes) : NUL ∉ cString s := by
  intro hmem
  have hne := List.mem_takeWhile_imp hmem
  simp at hne

theorem nul_not_mem_phaseLog : NUL ∉ phaseLog tm client.value request response :=
  not_mem_phaseLog (by decide) (by decide) (by decide) (nul_not_mem_cString _)
    (nul_not_mem_cString _)

theorem lf_not_mem_phaseLog (h : RequestParser.OneLine request) (hbytes : LF ∉ bytesStr response) :
    LF ∉ phaseLog tm client.value request response := by
  refine not_mem_phaseLog (by decide) (by decide) (by decide) (not_mem_cString _ ?_)
    (not_mem_cString _ hbytes)
  simp only [requestLine, h.method, List.mem_append, not_or]
  exact ⟨⟨⟨RequestHead.method_noLF _, by decide⟩, h.uri.2⟩, by decide⟩

/-- Without a NUL the buffer gets the entry as far as it goes. -/
theorem phaseLog_eq_take (h : RequestParser.OneLine request) (huri : NUL ∉ request.uri)
    (hbytes : NUL ∉ bytesStr response) : phaseLog tm client.value request response =
      (fullEntry tm client request response).toBytes.take 1023 := by
  have hclient : NUL ∉ clientIp client.value :=
    not_mem_clientIp (by decide) (by decide) client
  have hline : NUL ∉ requestLine request := by
    have hmethod : NUL ∉ request.method.toBytes := by cases request.method <;> decide
    simp only [requestLine, h.method, List.mem_append, not_or]
    exact ⟨⟨⟨hmethod, by decide⟩, huri⟩, by decide⟩
  rw [phaseLog, snprintf, cString_of_not_mem hclient, cString_of_not_mem hline,
    cString_of_not_mem hbytes, timestamp_eq]
  congr 1
  simp [fullEntry, LogEntry.toBytes, LogEntry.requestLine, requestLine, ascii, byteOf]

/-- What is read has no more bytes than were written, and so none that could not be. -/
theorem loggable_of_readsBack (h : RequestParser.OneLine request)
    (hreads : ReadsBack tm client request response) : Loggable client request response := by
  obtain ⟨e, hread, hmethod, huri, hstatus, hbytes⟩ := hreads
  obtain ⟨hsep, hlf, rest, hlog⟩ := readEntry_eq_some_iff.1 hread
  have hquote : byteOf '"' ∉ request.uri := by
    intro hmem
    apply hsep.requestLine
    simp [LogEntry.requestLine, huri, hmem]
  have hlfbytes : LF ∉ bytesStr response := by
    intro hmem
    apply hlf
    simp [LogEntry.toBytes, hbytes, hmem]
  have hentry : phaseLog tm client.value request response = e.toBytes :=
    (append_cons_inj (lf_not_mem_phaseLog h hlfbytes) hlf hlog).1
  have hnul : NUL ∉ e.toBytes := hentry ▸ nul_not_mem_phaseLog
  have hnuluri : NUL ∉ request.uri := by
    intro hmem
    apply hnul
    simp [LogEntry.toBytes, LogEntry.requestLine, huri, hmem]
  have hnulbytes : NUL ∉ bytesStr response := by
    intro hmem
    apply hnul
    simp [LogEntry.toBytes, hbytes, hmem]
  refine ⟨⟨hnuluri, hquote⟩, ⟨hnulbytes, hlfbytes⟩, ?_⟩
  rw [phaseLog_eq_take h hnuluri hnulbytes] at hentry
  -- the entry is the whole one: a shorter one would have lost some of the last field
  have hwhole : e = fullEntry tm client request response := by
    apply LogEntry.eq_of_append hsep (fullEntry_separated h hquote) hmethod huri hstatus hbytes
    rw [← hentry, List.take_append_drop]
  have hlength := congrArg List.length hentry
  rw [hwhole, List.length_take, length_fullEntry] at hlength
  omega

theorem readsBack_of_loggable (h : RequestParser.OneLine request)
    (hlog : Loggable client request response) : ReadsBack tm client request response := by
  have hshort : (fullEntry tm client request response).toBytes.length ≤ 1023 := by
    have hlength := hlog.length
    rw [length_fullEntry]
    omega
  have hentry : phaseLog tm client.value request response =
      (fullEntry tm client request response).toBytes.take 1023 :=
    phaseLog_eq_take h hlog.uri.1 hlog.bytes.1
  rw [List.take_of_length_le hshort] at hentry
  refine ⟨fullEntry tm client request response, ?_, rfl, rfl, rfl, rfl⟩
  rw [readEntry_eq_some_iff, write, hentry]
  exact ⟨fullEntry_separated h hlog.uri.2, hentry ▸ lf_not_mem_phaseLog h hlog.bytes.2, [], rfl⟩

end

/--
The entry of a request that the parser delivers is read back exactly if no NUL and
no quote are in its URI, the size is a text without NUL and line feed, and the
fields leave room for the format.
-/
theorem phaseLog_readsBack_iff (tm : Tm) (client : ClientRemoteAddr) (request : HttpRequest)
    (h : RequestParser.Delivered request) (response : HttpResponse) :
    ReadsBack tm client request response ↔ Loggable client request response := by
  obtain ⟨p, hreached, -, rfl⟩ := h
  have hline := RequestParser.oneLine_of_reached hreached
  exact ⟨loggable_of_readsBack hline, readsBack_of_loggable hline⟩

/-- The first second of the year 2000. -/
def newYear : Tm := ⟨1, 0, 100, 0, 0, 0⟩

theorem phaseLog_readsBack_get :
    ReadsBack newYear .absent RequestParser.plainGet (.ofStatus .NotFound) :=
  (phaseLog_readsBack_iff newYear .absent RequestParser.plainGet
    RequestParser.delivered_plainGet _).2
    { uri := by decide
      bytes := by decide
      length := by decide }

/-- The entry of this request ends in the middle of its URI. -/
def nulGet : HttpRequest :=
  (RequestParser.feed {} (ascii "GET /a\x00b HTTP/1.1\r\n\r\n")).request

theorem delivered_nulGet : RequestParser.Delivered nulGet := by
  refine ⟨RequestParser.feed {} (ascii "GET /a\x00b HTTP/1.1\r\n\r\n"), ?_, by decide, rfl⟩
  exact .step (l := .feed (ascii "GET /a\x00b HTTP/1.1\r\n\r\n")) (.init rfl) trivial rfl

theorem phaseLog_not_readsBack :
    ¬ ∀ tm client request, RequestParser.Delivered request →
      ∀ response, ReadsBack tm client request response := by
  intro hall
  obtain ⟨p, hreached, -, hp⟩ := delivered_nulGet
  have hline : RequestParser.OneLine nulGet := hp ▸ RequestParser.oneLine_of_reached hreached
  have hreads := hall newYear .absent nulGet delivered_nulGet (.ofStatus .NotFound)
  have hnul : NUL ∈ nulGet.uri := by decide
  exact (loggable_of_readsBack hline hreads).uri.1 hnul

end AccessLog
end CppHttpd
