import StreamArena.Library.Framing
import StreamArena.Mobile.StripProxy

/-! One connection to the relay: how its bytes, as they come in, are cut into requests. -/
namespace StreamArena.Mobile.StripProxy
open AsciiText Framing
open LiveHls.Worker (jsTrim)

/-- The blank line that ends the headers of a request. -/
def headersEnd : Text := "\r\n\r\n".toList

/-- A request on the wire: its request line and headers up to the first blank line, and its body. -/
structure HttpRequest where
  head : Text
  body : Text
  complete : Complete headersEnd head

def HttpRequest.bytes (r : HttpRequest) : Text := r.head ++ headersEnd ++ r.body

def sent (requests : List HttpRequest) : Text := requests.flatMap HttpRequest.bytes

/-- `split("\r\n")`. -/
def splitCrlf : Text → List Text
  | [] => [[]]
  | '\r' :: '\n' :: rest => [] :: splitCrlf rest
  | c :: rest => (splitCrlf rest).modifyHead (c :: ·)

def headerValue (lines : List Text) (name : Text) : Option Text :=
  lines.tail.findSome? fun line =>
    (splitOnce [':'] line).bind fun parts =>
      if parts.1 ≠ [] ∧ toAsciiLowercase (jsTrim parts.1) = toAsciiLowercase name then some (jsTrim parts.2) else none

/-- The arguments of a call of `serve`. -/
structure Call where
  path : Text
  range : Option Text
  deriving DecidableEq

def parseHead (head : Text) : Call :=
  let lines := splitCrlf head
  let path := ((lines.headD []).splitOn ' ').getD 1 []
  { path := if path = [] then ['/'] else path, range := headerValue lines "range".toList }

structure Connection where
  buf : Text
  busy : Bool
  /-- The calls of `serve`, in order. -/
  served : List Call

inductive SocketEvent where
  | data (chunk : Text)
  /-- The call of `serve` in flight settles. -/
  | settled

namespace Connection

def opened : Connection := ⟨[], false, []⟩

def pump (c : Connection) : Connection :=
  if c.busy then c
  else
    match splitOnce headersEnd c.buf with
    | none => c
    | some (head, rest) => { buf := rest, busy := true, served := c.served ++ [parseHead head] }

def handle (c : Connection) : SocketEvent → Connection
  | .data chunk => pump { c with buf := c.buf ++ chunk }
  | .settled =>
    if c.busy then
      let c := { c with busy := false }
      if contains c.buf headersEnd then pump c else c
    else c

def after (events : List SocketEvent) : Connection := events.foldl handle opened

end Connection

def received (events : List SocketEvent) : Text :=
  events.flatMap fun
    | .data chunk => chunk
    | .settled => []

attribute [local simp] splitCrlf

theorem received_append (events more : List SocketEvent) : received (events ++ more) = received events ++ received more :=
  List.flatMap_append

/-- The bytes seen so far are blocks that were served, and the buffer. -/
structure Consumed (c : Connection) (seen : Text) (heads : List Text) : Prop where
  complete : ∀ head ∈ heads, Complete headersEnd head
  seen_eq : seen = stream headersEnd heads ++ c.buf
  served_eq : c.served = heads.map parseHead

/-- And an idle connection holds no complete request. -/
def Framed (c : Connection) (seen : Text) : Prop :=
  ∃ heads, Consumed c seen heads ∧ (c.busy = false → splitOnce headersEnd c.buf = none)

theorem framed_pump {c : Connection} {seen : Text} {heads : List Text} (h : Consumed c seen heads) : Framed c.pump seen := by
  rw [Connection.pump]
  split
  next hbusy => exact ⟨heads, h, fun hidle => by rw [hidle] at hbusy; cases hbusy⟩
  next hidle =>
    split
    next hnone => exact ⟨heads, h, fun _ => hnone⟩
    next head rest hsome =>
      refine ⟨heads ++ [head], ⟨?_, ?_, ?_⟩, fun hidle => by cases hidle⟩
      · intro other hother
        obtain hold | hnew := List.mem_append.mp hother
        · exact h.complete other hold
        · rw [List.mem_singleton.mp hnew]
          exact splitOnce_before hsome
      · rw [h.seen_eq, splitOnce_eq_some hsome, stream_concat, List.append_assoc, List.append_assoc, List.append_assoc]
      · rw [h.served_eq, List.map_append, List.map_singleton]

theorem framed_handle {c : Connection} {seen : Text} (e : SocketEvent) (h : Framed c seen) :
    Framed (c.handle e) (seen ++ received [e]) := by
  obtain ⟨heads, hconsumed, hidle⟩ := h
  cases e with
  | data chunk =>
    have hseen : seen ++ received [.data chunk] = stream headersEnd heads ++ (c.buf ++ chunk) := by
      rw [hconsumed.seen_eq, List.append_assoc]
      simp [received]
    exact framed_pump ⟨hconsumed.complete, hseen, hconsumed.served_eq⟩
  | settled =>
    have hseen : seen ++ received [.settled] = seen := List.append_nil _
    rw [hseen, Connection.handle]
    split
    next hbusy =>
      have hfree : Consumed { c with busy := false } seen heads := ⟨hconsumed.complete, hconsumed.seen_eq, hconsumed.served_eq⟩
      dsimp only
      split
      next => exact framed_pump hfree
      next hmore => exact ⟨heads, hfree, fun _ => by simpa [contains] using hmore⟩
    next => exact ⟨heads, hconsumed, hidle⟩

theorem framed_foldl {c : Connection} {seen : Text} (events : List SocketEvent) (h : Framed c seen) :
    Framed (events.foldl Connection.handle c) (seen ++ received events) := by
  induction events generalizing c seen with
  | nil =>
    rw [received, List.flatMap_nil, List.append_nil]
    exact h
  | cons e events ih =>
    have hstep := ih (framed_handle e h)
    rw [List.append_assoc, ← received_append] at hstep
    exact hstep

theorem framed_after (events : List SocketEvent) : Framed (Connection.after events) (received events) := by
  have hopened : Consumed Connection.opened [] [] := { complete := by simp, seen_eq := rfl, served_eq := rfl }
  exact framed_foldl events ⟨[], hopened, fun _ => rfl⟩

section
variable {requests : List HttpRequest}

theorem sent_eq_stream (hbody : ∀ r ∈ requests, r.body = []) : sent requests = stream headersEnd (requests.map HttpRequest.head) := by
  induction requests with
  | nil => rfl
  | cons r requests ih =>
    rw [sent, List.flatMap_cons, List.map_cons, stream_cons, ← ih fun other hother => hbody other (List.mem_cons_of_mem _ hother),
      HttpRequest.bytes, hbody r List.mem_cons_self, List.append_nil]
    rfl

/-- The requests served are the first of those sent, and what is left of the bytes begins the next. -/
theorem Framed.served_eq {c : Connection} {seen : Text} (h : Framed c seen) (hbody : ∀ r ∈ requests, r.body = [])
    (hseen : seen <+: sent requests) :
    ∃ done todo, requests = done ++ todo ∧ c.served = done.map (fun r => parseHead r.head) ∧ seen = sent done ++ c.buf ∧
      c.buf <+: sent todo ∧ (c.busy = false → splitOnce headersEnd c.buf = none) := by
  obtain ⟨heads, hconsumed, hidle⟩ := h
  have hheads : ∀ head ∈ requests.map HttpRequest.head, Complete headersEnd head := by
    intro head hhead
    obtain ⟨r, -, rfl⟩ := List.mem_map.mp hhead
    exact r.complete
  rw [sent_eq_stream hbody, hconsumed.seen_eq] at hseen
  obtain ⟨later, heq, hrest⟩ := exists_blocks_append (by decide) hconsumed.complete hheads hseen
  obtain ⟨done, todo, rfl, hdone, rfl⟩ := List.map_eq_append_iff.mp heq
  have hbodyDone (r) (hr : r ∈ done) : r.body = [] := hbody r (List.mem_append_left _ hr)
  have hbodyTodo (r) (hr : r ∈ todo) : r.body = [] := hbody r (List.mem_append_right _ hr)
  refine ⟨done, todo, rfl, ?_, ?_, ?_, hidle⟩
  · rw [hconsumed.served_eq, ← hdone, List.map_map]
    rfl
  · rw [sent_eq_stream hbodyDone, hdone]
    exact hconsumed.seen_eq
  · rw [sent_eq_stream hbodyTodo]
    exact hrest

/-- An idle connection that has seen all the bytes has served all the requests. -/
theorem Framed.all_served {c : Connection} (h : Framed c (sent requests)) (hbody : ∀ r ∈ requests, r.body = [])
    (hidle : c.busy = false) : c.served = requests.map fun r => parseHead r.head := by
  obtain ⟨done, todo, rfl, hserved, hseen, -, hnone⟩ := h.served_eq hbody (List.prefix_refl _)
  have hbuf : c.buf = sent todo := by
    rw [sent, List.flatMap_append] at hseen
    exact (List.append_cancel_left hseen).symm
  cases todo with
  | nil => rw [hserved, List.append_nil]
  | cons r todo =>
    -- the bytes of a request not served would be complete in the buffer
    have hsplit := r.complete.splitOnce (r.body ++ sent todo)
    have hbytes : sent (r :: todo) = r.head ++ headersEnd ++ (r.body ++ sent todo) := by
      rw [sent, List.flatMap_cons, HttpRequest.bytes, List.append_assoc]
      rfl
    rw [← hbytes, ← hbuf, hnone hidle] at hsplit
    cases hsplit

theorem idle_settled {c : Connection} (h : c.busy = false) (n : Nat) :
    (List.replicate n SocketEvent.settled).foldl Connection.handle c = c := by
  induction n with
  | zero => rfl
  | succ n ih =>
    rw [List.replicate_succ, List.foldl_cons, Connection.handle, if_neg (by simp [h])]
    exact ih

/-- A call that settles leaves the connection idle or is followed by the next. -/
theorem settled_cases {c : Connection} (h : c.busy = true) :
    (c.handle .settled).busy = false ∨ (c.handle .settled).served.length = c.served.length + 1 := by
  rw [Connection.handle, if_pos h]
  dsimp only
  split
  · rw [Connection.pump]
    split
    · exact .inl rfl
    · split
      · exact .inl rfl
      · exact .inr (by simp)
  · exact .inl rfl

/-- The calls settle one after the other until the connection is idle. -/
theorem idle_after_settled {c : Connection} (h : Framed c (sent requests)) (hbody : ∀ r ∈ requests, r.body = []) {n : Nat}
    (hn : requests.length < c.served.length + n) :
    ((List.replicate n SocketEvent.settled).foldl Connection.handle c).busy = false := by
  induction n generalizing c with
  | zero =>
    obtain ⟨done, todo, rfl, hserved, -⟩ := h.served_eq hbody (List.prefix_refl _)
    rw [hserved, List.length_append, List.length_map] at hn
    omega
  | succ n ih =>
    cases hbusy : c.busy with
    | false =>
      rw [idle_settled hbusy]
      exact hbusy
    | true =>
      have hnext : Framed (c.handle .settled) (sent requests) := by
        have hstep := framed_handle .settled h
        rw [received, List.flatMap_singleton, List.append_nil] at hstep
        exact hstep
      rw [List.replicate_succ, List.foldl_cons]
      obtain hidle | hlength := settled_cases hbusy
      · rw [idle_settled hidle]
        exact hidle
      · exact ih hnext (by omega)

/-- However the bytes of requests without a body are cut and whenever the calls settle, the requests are served
each once and in order, none before all of its bytes have come, and all of them once the calls have settled. -/
theorem framed_requests (requests : List HttpRequest) (events : List SocketEvent) (hbody : ∀ r ∈ requests, r.body = [])
    (h : received events <+: sent requests) :
    (∃ done todo, requests = done ++ todo ∧ (Connection.after events).served = done.map (fun r => parseHead r.head) ∧
      sent done <+: received events) ∧
    (received events = sent requests →
      ((Connection.after events).busy = false →
        (Connection.after events).served = requests.map fun r => parseHead r.head) ∧
      ∀ n, requests.length < n → (Connection.after (events ++ List.replicate n .settled)).busy = false ∧
        (Connection.after (events ++ List.replicate n .settled)).served = requests.map fun r => parseHead r.head) := by
  have hframed := framed_after events
  obtain ⟨done, todo, hsplit, hserved, hseen, -⟩ := hframed.served_eq hbody h
  refine ⟨⟨done, todo, hsplit, hserved, _, hseen.symm⟩, fun hall => ?_⟩
  rw [hall] at hframed
  refine ⟨hframed.all_served hbody, fun n hn => ?_⟩
  have hidle : (Connection.after (events ++ List.replicate n .settled)).busy = false := by
    rw [Connection.after, List.foldl_append]
    exact idle_after_settled hframed hbody (by omega)
  have hlast : Framed (Connection.after (events ++ List.replicate n .settled)) (sent requests) := by
    have hsettled : received (List.replicate n .settled) = [] := by simp [received]
    have hrun := framed_after (events ++ List.replicate n .settled)
    rw [received_append, hsettled, List.append_nil, hall] at hrun
    exact hrun
  exact ⟨hidle, hlast.all_served hbody hidle⟩

end

def playlistRequest : HttpRequest := ⟨"GET /m?mid=1 HTTP/1.1".toList, [], by decide +kernel⟩

def segmentRequest : HttpRequest := ⟨"GET /s?id=2 HTTP/1.1\r\nRange: bytes=0-".toList, [], by decide +kernel⟩

/-- The first request ends in the second chunk, and the third comes while it is served. -/
def threeChunks : List SocketEvent :=
  [.data "GET /m?mid=1 HTTP/1.1\r\n\r".toList, .data "\nGET /s?i".toList, .data "d=2 HTTP/1.1\r\nRange: bytes=0-\r\n\r\n".toList,
    .settled, .settled]

theorem framed_requests_threeChunks :
    (Connection.after threeChunks).served = [⟨"/m?mid=1".toList, none⟩, ⟨"/s?id=2".toList, some "bytes=0-".toList⟩] := by
  have hall : received threeChunks = sent [playlistRequest, segmentRequest] := by decide +kernel
  have hprefix : received threeChunks <+: sent [playlistRequest, segmentRequest] := by rw [hall]
  have hbody : ∀ r ∈ [playlistRequest, segmentRequest], r.body = [] := by
    intro r hr
    obtain rfl | hr := List.mem_cons.mp hr
    · rfl
    · rw [List.mem_singleton.mp hr]
      rfl
  have hframed := framed_requests [playlistRequest, segmentRequest] threeChunks hbody hprefix
  rw [(hframed.2 hall).1 (by decide +kernel)]
  decide +kernel

def reportRequest : HttpRequest := ⟨"POST /m HTTP/1.1\r\nContent-Length: 8".toList, "GET /s x".toList, by decide +kernel⟩

/-- The body of a request is read as the beginning of the next. -/
theorem body_read_as_head : ¬ ∀ (requests : List HttpRequest) (events : List SocketEvent), received events = sent requests →
    (Connection.after events).busy = false → (Connection.after events).served = requests.map fun r => parseHead r.head := by
  intro h
  have hserved := h [reportRequest, playlistRequest] [.data (sent [reportRequest, playlistRequest]), .settled, .settled]
    (by decide +kernel) (by decide +kernel)
  revert hserved
  decide +kernel

end StreamArena.Mobile.StripProxy
