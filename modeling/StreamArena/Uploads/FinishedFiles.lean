import StreamArena.Uploads.UploadSessions

/-! Finished uploads: every event keeps the file of a session apart from what dropped appends
have left running, and a finish hands over what was acknowledged. -/
namespace StreamArena.Uploads
open AsciiText Runs

theorem resize_of_prefix {received file : Bytes} (h : received <+: file) : resize file received.length = received := by
  have hle := h.length_le
  rw [resize, ← List.prefix_iff_eq_take.mp h, Nat.sub_eq_zero_of_le hle, List.replicate_zero,
    List.append_nil]

theorem apply_prefix {received file : Bytes} {op : FileOp} {count : Nat} (h : received <+: file)
    (hop : ∀ length, op = .setLen length → length = received.length) :
    received <+: op.apply count file := by
  cases op with
  | write bytes => exact h.trans (List.prefix_append _ _)
  | setLen length =>
    rw [hop length rfl, FileOp.apply, resize_of_prefix h]

theorem setLen_notMem_ofInflight {length : Nat} {inflight : Bytes} :
    FileOp.setLen length ∉ FileOp.ofInflight inflight := by
  cases inflight with
  | nil => exact List.not_mem_nil
  | cons byte bytes => simp [FileOp.ofInflight]

namespace Service
variable {maxUploadBytes : Nat} {s t : Service} {task : Nat} {id : Text}

/-- The file of a session that is as long as its counter is what was acknowledged. -/
theorem Starts.content_eq {session : UploadSession} (h : s.Starts id session)
    (hlength : (s.content id).length = session.receivedBytes) : s.content id = s.received id := by
  have hle : (s.content id).length ≤ (s.received id).length := by rw [hlength, h.received]
  exact (h.starts.eq_of_length_le hle).symm

/-- The session under the lock of a request goes, with its file. -/
theorem Sound.remove {session : UploadSession} (h : s.Sound maxUploadBytes) (howner : s.owner id = some task)
    (hsession : s.sessions id = some session) : ((s.removeSession id).leave task id).Sound maxUploadBytes := by
  have hunheld : s.Unheld task id := h.unheld fun other hother => by
    rw [howner] at hother
    exact (Option.some.inj hother).symm
  have hstarts := h.sessions id session hsession
  have halone := h.alone howner (by rw [hsession]; rfl)
  refine h.changes (((changesOnly_leave hunheld).setSession none).setFile none) halone hstarts.known
    (fun other hother => ?_) (h.handed.frame rfl (fun _ hx => hx) fun _ _ => rfl) become_self trivial
  have hnone : ((s.removeSession id).leave task id).sessions id = none := Function.update_self ..
  rw [hnone] at hother
  cases hother

theorem Sound.checkAppend {readable : Bool} (h : s.Sound maxUploadBytes) (howner : s.owner id = some task)
    (hquiet : ∀ op, (id, op) ∉ s.pending) :
    (s.checkAppend maxUploadBytes task id readable).Sound maxUploadBytes := by
  rw [Service.checkAppend]
  split
  next => exact h.leave howner
  next session hsession =>
    have hstarts := h.sessions id session hsession
    split_ifs with hread
    · have hcontent := hstarts.content_eq hread.2
      have howns : s.Owns task id session.receivedBytes :=
        ⟨howner, hquiet, by rw [hsession]; rfl, hstarts.received⟩
      exact h.become (fun _ _ he => by cases he) ⟨⟨howns.owner, howns.quiet, howns.present, howns.length⟩, hcontent⟩
    · exact h.remove howner hsession

theorem Sound.checkFinish {readable : Bool} (h : s.Sound maxUploadBytes) (howner : s.owner id = some task)
    (hquiet : ∀ op, (id, op) ∉ s.pending) :
    (s.checkFinish maxUploadBytes task id readable).Sound maxUploadBytes := by
  rw [Service.checkFinish]
  split
  next => exact h.leave howner
  next session hsession =>
    have hstarts := h.sessions id session hsession
    dsimp only
    split_ifs with hread
    · obtain ⟨-, -, hmax, hlength, hexpected⟩ := hread
      have hunheld : s.Unheld task id := h.unheld fun other hother => by
        rw [howner] at hother
        exact (Option.some.inj hother).symm
      have halone := h.alone howner (by rw [hsession]; rfl)
      have hchange : ChangesOnly s (s.become task (.claimed id session.expectedBytes)) task id :=
        changesOnly_become fun other expectedBytes he => by
          cases he
          exact halone
      have hnone : (Function.update s.sessions id none) id = none := Function.update_self ..
      refine h.changes ((hchange.setSession none).setOwner hunheld none) halone hstarts.known
        (fun other hother => ?_) (h.handed.frame rfl (fun _ hx => hx) fun _ _ => rfl) become_self ?_
      · cases hnone.symm.trans hother
      · exact {
          known := hstarts.known
          quiet := hquiet
          absent := hnone
          content := hstarts.content_eq hlength
          length := hmax
          expected := fun n hn => by
            rw [hn, Option.all_some, beq_iff_eq] at hexpected
            exact hexpected
          new := hstarts.new
          only := fun other expectedBytes hother => by
            by_contra hne
            have hsame : s.tasks other = .claimed id expectedBytes :=
              (Function.update_of_ne hne ..).symm.trans hother
            exact halone other hne (by rw [hsame]; rfl) }
    · exact h.remove howner hsession

theorem Sound.checkSweep {now : Int} (h : s.Sound maxUploadBytes) (howner : s.owner id = some task) :
    (s.checkSweep task id now).Sound maxUploadBytes := by
  rw [Service.checkSweep]
  split
  next => exact h.leave howner
  next session hsession =>
    split_ifs
    · exact h.remove howner hsession
    · exact h.leave howner

/-- A request that owns the file of a session writes to it, past what was acknowledged. -/
theorem Sound.wrote {state : Task} {length : Nat} {file : Bytes} (h : s.Sound maxUploadBytes)
    (howns : s.Owns task id length) (hfile : s.received id <+: file)
    (hclaims : ∀ other expectedBytes, state ≠ .claimed other expectedBytes)
    (hfits : ((s.setFile id (some file)).become task state).Fits maxUploadBytes task state) :
    ((s.setFile id (some file)).become task state).Sound maxUploadBytes := by
  obtain ⟨session, hsession⟩ := Option.isSome_iff_exists.mp howns.present
  have hstarts := h.sessions id session hsession
  have hchange : ChangesOnly s (s.become task state) task id :=
    changesOnly_become fun other expectedBytes he => absurd he (hclaims other expectedBytes)
  refine h.changes (hchange.setFile _) (h.alone howns.owner howns.present) hstarts.known
    (fun other hother => ?_) (h.handed.frame rfl (fun _ hx => hx) fun _ _ => rfl) become_self hfits
  have hsame : other = session := Option.some.inj (hother.symm.trans hsession)
  subst hsame
  refine ⟨hstarts.known, hstarts.new, hstarts.received, ?_, hstarts.pending⟩
  have hcontent : ((s.setFile id (some file)).become task state).content id = file := by
    simp [content, setFile, Service.become]
  rw [hcontent]
  exact hfile

theorem content_wrote {state : Task} {file : Bytes} :
    ((s.setFile id (some file)).become task state).content id = file := by
  simp [content, setFile, Service.become]

theorem Owns.wrote {state : Task} {length : Nat} {file : Option Bytes} (h : s.Owns task id length) :
    ((s.setFile id file).become task state).Owns task id length :=
  ⟨h.owner, h.quiet, h.present, h.length⟩

theorem Owns.become {state : Task} {length : Nat} (h : s.Owns task id length) :
    (s.become task state).Owns task id length :=
  ⟨h.owner, h.quiet, h.present, h.length⟩

/-- A request that owns the file of a session returns, and leaves there what was acknowledged. -/
theorem Sound.leaves {length : Nat} {file : Bytes} (h : s.Sound maxUploadBytes)
    (howns : s.Owns task id length) (hfile : s.received id <+: file) :
    ((s.setFile id (some file)).leave task id).Sound maxUploadBytes := by
  have hwrote : ((s.setFile id (some file)).become task (.failing id length [])).Sound maxUploadBytes :=
    h.wrote howns hfile (fun _ _ he => by cases he) howns.wrote
  have howner : ((s.setFile id (some file)).become task (.failing id length [])).owner id = some task :=
    howns.owner
  have hleft := hwrote.leave howner
  have hsame : ((s.setFile id (some file)).become task (.failing id length [])).leave task id =
      (s.setFile id (some file)).leave task id := by
    simp only [Service.leave, Service.become, Function.update_idem]
  rwa [hsame] at hleft

theorem Sound.acknowledge {session : UploadSession} {previous : Nat} {accepted : Bytes} {now : Int}
    (h : s.Sound maxUploadBytes) (howns : s.Owns task id previous)
    (hcontent : s.content id = s.received id ++ accepted) (hsession : s.sessions id = some session) :
    ({ (s.setSession id (some { session with
          receivedBytes := previous + accepted.length, lastActivityAt := now })).leave task id with
        acknowledged := Function.update s.acknowledged id (s.acknowledged id ++ [accepted]) } : Service).Sound
      maxUploadBytes := by
  have hunheld : s.Unheld task id := h.unheld fun other hother => by
    rw [howns.owner] at hother
    exact (Option.some.inj hother).symm
  have hstarts := h.sessions id session hsession
  have hchange := ((changesOnly_leave hunheld).setSession (some { session with
    receivedBytes := previous + accepted.length, lastActivityAt := now })).setAcknowledged
      (s.acknowledged id ++ [accepted])
  have hreceived : ((Function.update s.acknowledged id (s.acknowledged id ++ [accepted])) id).flatten =
      s.received id ++ accepted := by
    simp [received]
  refine h.changes hchange (h.alone howns.owner howns.present) hstarts.known (fun other hother => ?_)
    (h.handed.frame rfl (fun _ hx => hx) fun other hmem => ?_) become_self trivial
  · have hself : Function.update s.sessions id (some { session with
        receivedBytes := previous + accepted.length, lastActivityAt := now }) id =
          some { session with receivedBytes := previous + accepted.length, lastActivityAt := now } :=
      Function.update_self ..
    have hother' := Option.some.inj (hself.symm.trans hother)
    subst hother'
    refine ⟨hstarts.known, hstarts.new, ?_, ?_, fun length hop => absurd hop (howns.quiet _)⟩
    · rw [received, hreceived, List.length_append, howns.length]
    · rw [received, hreceived, ← hcontent]
      exact List.prefix_rfl
  · have hne : other ≠ id := by
      rintro rfl
      exact hstarts.new hmem
    rw [received, received]
    dsimp only
    rw [Function.update_of_ne hne]

theorem Sound.process {expectedBytes : Option Nat} {handed : Bool} (h : s.Sound maxUploadBytes)
    (hclaims : s.Claims maxUploadBytes task id expectedBytes) :
    ((if handed then
        { (s.setFile id none).become task .idle with handed := ⟨id, expectedBytes, s.content id⟩ :: s.handed }
      else (s.setFile id none).become task .idle : Service)).Sound maxUploadBytes := by
  have hbase : ChangesOnly s (s.become task .idle) task id := changesOnly_become fun _ _ he => by cases he
  have hnone : ∀ session, s.sessions id ≠ some session := fun session hsession => by
    rw [hclaims.absent] at hsession
    cases hsession
  split_ifs
  · refine h.changes ?_ (h.alone_of_claims hclaims) hclaims.known
      (fun session hsession => absurd hsession (hnone session)) ?_ become_self trivial
    · exact {
        tasks := hbase.tasks
        claims := hbase.claims
        others := fun other hne =>
          have hsame := (hbase.setFile none).others other hne
          ⟨hsame.session, hsame.file, hsame.acknowledged, hsame.pending, fun hmem => by
            rw [List.map_cons, List.mem_cons] at hmem
            exact hmem.resolve_left hne⟩
        owner := hbase.owner
        lock := hbase.lock
        started := hbase.started }
    · refine ⟨fun handed hmem => ?_, fun handed hmem => ?_, fun handed hmem => ?_, ?_⟩
      · obtain rfl | hmem := List.mem_cons.mp hmem
        · exact hclaims.content
        · exact h.handed.content handed hmem
      · obtain rfl | hmem := List.mem_cons.mp hmem
        · exact hclaims.length
        · exact h.handed.length handed hmem
      · obtain rfl | hmem := List.mem_cons.mp hmem
        · exact ⟨hclaims.known, hclaims.expected⟩
        · exact h.handed.declared handed hmem
      · exact List.nodup_cons.mpr ⟨hclaims.new, h.handed.once⟩
  · exact h.changes (hbase.setFile none) (h.alone_of_claims hclaims) hclaims.known
      (fun session hsession => absurd hsession (hnone session))
      (h.handed.frame rfl (fun _ hx => hx) fun _ _ => rfl) become_self trivial

/-- What a dropped request leaves running does not reach what was acknowledged. -/
theorem Sound.drop {length : Nat} {running : List FileOp} (h : s.Sound maxUploadBytes)
    (howns : s.Owns task id length)
    (hrunning : ∀ n, FileOp.setLen n ∈ running → n = (s.received id).length) :
    (s.drop task id running).Sound maxUploadBytes := by
  have hunheld : s.Unheld task id := h.unheld fun other hother => by
    rw [howns.owner] at hother
    exact (Option.some.inj hother).symm
  obtain ⟨session, hsession⟩ := Option.isSome_iff_exists.mp howns.present
  have hstarts := h.sessions id session hsession
  have hchange : ChangesOnly s (s.drop task id running) task id :=
    (changesOnly_leave hunheld).setPending fun other op hne hmem => by
      obtain hmem | hmem := List.mem_append.mp hmem
      · obtain ⟨op', -, he⟩ := List.mem_map.mp hmem
        cases he
        exact absurd rfl hne
      · exact hmem
  refine h.changes hchange (h.alone howns.owner howns.present) hstarts.known (fun other hother => ?_)
    (h.handed.frame rfl (fun _ hx => hx) fun _ _ => rfl) become_self trivial
  have hsame : other = session := Option.some.inj (hother.symm.trans hsession)
  subst hsame
  refine ⟨hstarts.known, hstarts.new, hstarts.received, hstarts.starts, fun n hop => ?_⟩
  obtain hop | hop := List.mem_append.mp hop
  · obtain ⟨op', hmem, he⟩ := List.mem_map.mp hop
    cases he
    exact hrunning n hmem
  · exact hstarts.pending n hop

theorem Sound.landsPending {op : FileOp} {index count : Nat} (h : s.Sound maxUploadBytes)
    (hop : s.pending[index]? = some (id, op)) :
    ({ s.setFile id ((s.files id).map fun file => op.apply count file) with
        pending := s.pending.eraseIdx index } : Service).Sound maxUploadBytes := by
  have hmem : (id, op) ∈ s.pending := List.mem_of_getElem? hop
  have hchange (task : Nat) : ChangesOnly s
      { s.setFile id ((s.files id).map fun file => op.apply count file) with
        pending := s.pending.eraseIdx index } task id :=
    ((changesOnly_self h).setFile _).setPending fun _ _ _ hother => List.mem_of_mem_eraseIdx hother
  have hknown : ∃ expectedBytes, (id, expectedBytes) ∈ s.started := by
    by_contra hnone
    exact (h.fresh id fun expectedBytes hstarted => hnone ⟨expectedBytes, hstarted⟩).2.1 op hmem
  obtain ⟨expectedBytes, hstarted⟩ := hknown
  refine h.changes (hchange 0) (h.alone_of_pending hmem) hstarted (fun session hsession => ?_)
    (h.handed.frame rfl (fun _ hx => hx) fun _ _ => rfl) rfl
    (h.others (hchange 1) (.inr (h.alone_of_pending hmem)) Nat.zero_ne_one)
  have hstarts := h.sessions id session hsession
  refine ⟨hstarts.known, hstarts.new, hstarts.received, ?_, fun n hn =>
    hstarts.pending n (List.mem_of_mem_eraseIdx hn)⟩
  have hstart := hstarts.starts
  rw [content] at hstart ⊢
  dsimp only [setFile]
  rw [Function.update_self]
  cases hfile : s.files id with
  | none => rwa [hfile] at hstart
  | some file =>
    rw [hfile] at hstart
    exact apply_prefix hstart fun n hn => hstarts.pending n (hn ▸ hmem)

theorem Sound.start {expectedBytes : Option Nat} {now : Int} (h : s.Sound maxUploadBytes)
    (hnew : ∀ expectedBytes, (id, expectedBytes) ∉ s.started) :
    ({ s.setSession id (some ⟨expectedBytes, 0, now⟩) with
        started := (id, expectedBytes) :: s.started } : Service).Sound maxUploadBytes := by
  obtain ⟨hnone, hquiet, hhanded⟩ := h.fresh id hnew
  have hchange (task : Nat) : ChangesOnly s
      { s.setSession id (some ⟨expectedBytes, 0, now⟩) with
        started := (id, expectedBytes) :: s.started } task id :=
    have hself : ChangesOnly s s task id := changesOnly_self h
    have hsession := hself.setSession (some ⟨expectedBytes, 0, now⟩)
    { tasks := hsession.tasks, claims := hsession.claims, owner := hsession.owner, lock := hsession.lock
      others := fun other hne =>
        have hsame := hsession.others other hne
        ⟨hsame.session, hsame.file, hsame.acknowledged, hsame.pending, hsame.handed⟩
      started := fun _ hx => List.mem_cons_of_mem _ hx }
  have halone (task : Nat) : s.Alone task id := by
    intro other _ hchecked
    obtain ⟨-, ⟨-, hpresent⟩ | ⟨expected, hclaimed⟩⟩ := (h.tasks other).checked hchecked
    · obtain ⟨session, hsession⟩ := Option.isSome_iff_exists.mp hpresent
      exact hnew _ (h.sessions id session hsession).known
    · have hfits := h.tasks other
      rw [hclaimed] at hfits
      exact hnew _ (Claims.known hfits)
  have hreceived : s.received id = [] := by rw [received, hnone, List.flatten_nil]
  refine h.changes (hchange 0) (halone 0) List.mem_cons_self (fun session hsession => ?_)
    (h.handed.frame rfl (fun _ hx => List.mem_cons_of_mem _ hx) fun _ _ => rfl) rfl
    (h.others (hchange 1) (.inr (halone 1)) Nat.zero_ne_one)
  have hself : Function.update s.sessions id (some ⟨expectedBytes, 0, now⟩) id =
      some ⟨expectedBytes, 0, now⟩ := Function.update_self ..
  have hsame := Option.some.inj (hself.symm.trans hsession)
  subst hsame
  refine ⟨List.mem_cons_self, hhanded, ?_, ?_, fun n hn => absurd hn (hquiet _)⟩
  · exact (congrArg List.length hreceived).symm
  · have hnil : s.received id <+: s.content id := by rw [hreceived]; exact List.nil_prefix
    exact hnil

theorem Sound.lock {operation : Operation} (h : s.Sound maxUploadBytes)
    (hfree : s.owner operation.sessionId = none) :
    ({ s.become task (.locked operation) with
        owner := Function.update s.owner operation.sessionId (some task) } : Service).Sound maxUploadBytes := by
  have hunheld : s.Unheld task operation.sessionId := h.unheld fun other hother => by
    rw [hfree] at hother
    cases hother
  have hchange : ChangesOnly s (s.become task (.locked operation)) task operation.sessionId :=
    changesOnly_become fun _ _ he => by cases he
  refine h.moves (hchange.setOwner hunheld (some task))
    ⟨rfl, rfl, rfl, fun _ hop => hop, fun hmem => hmem⟩ rfl rfl become_self ?_
  exact Function.update_self operation.sessionId (some task) s.owner

/-- What a write that lands, or fails, adds to the file is past what was acknowledged. -/
theorem Owns.received_prefix {length : Nat} (h : s.Owns task id length) (hsound : s.Sound maxUploadBytes)
    (more : Bytes) : s.received id <+: s.content id ++ more := by
  obtain ⟨session, hsession⟩ := Option.isSome_iff_exists.mp h.present
  exact (hsound.sessions id session hsession).starts.trans (List.prefix_append _ _)

theorem Sound.step {event : Event} (hsettled : s.Settled event) (h : s.Sound maxUploadBytes) :
    (Service.step maxUploadBytes s event).Sound maxUploadBytes := by
  cases event with
  | start id expectedBytes now =>
    simp only [Service.step]
    split_ifs
    · exact h.start hsettled
    · exact h
  | call task operation =>
    simp only [Service.step]
    split
    · exact h.become (fun _ _ he => by cases he) trivial
    · exact h
  | lock task =>
    simp only [Service.step]
    split
    · split
      next hfree => exact h.lock hfree
      next => exact h
    · exact h
  | check task readable =>
    have hfits := h.tasks task
    simp only [Service.step]
    split
    next id hstate =>
      rw [hstate] at hfits
      exact h.checkAppend hfits (hsettled id (.inl hstate))
    next id hstate =>
      rw [hstate] at hfits
      exact h.checkFinish hfits (hsettled id (.inr hstate))
    next id now hstate =>
      rw [hstate] at hfits
      exact h.checkSweep hfits
    next => exact h
  | opens task opened =>
    have hfits := h.tasks task
    simp only [Service.step]
    split
    next id previous maxFileBytes hstate =>
      rw [hstate] at hfits
      obtain ⟨howns, hcontent⟩ := hfits
      have hfile : s.received id <+: s.content id := hcontent ▸ List.prefix_rfl
      split_ifs
      · refine h.wrote howns hfile (fun _ _ he => by cases he) ⟨howns.wrote, ?_, ?_⟩
        · rw [hcontent, howns.length]
        · rw [content_wrote, List.append_nil, List.append_nil, List.append_nil]
          exact hcontent
      · exact h.leaves howns hfile
      · exact h.leave howns.owner
    next => exact h
  | chunk task bytes =>
    have hfits := h.tasks task
    simp only [Service.step]
    split
    next id previous maxFileBytes initialLen accepted inflight hstate =>
      rw [hstate] at hfits
      obtain ⟨howns, hinitial, hcontent⟩ := hfits
      split_ifs
      · exact h.become (fun _ _ he => by cases he) (hinitial ▸ howns.become)
      · refine h.become (fun _ _ he => by cases he) ⟨howns.become, hinitial, ?_⟩
        rw [List.append_nil] at hcontent
        change s.content id ++ inflight ++ bytes = s.received id ++ (accepted ++ bytes)
        rw [hcontent, List.append_assoc]
    next => exact h
  | streamFails task =>
    have hfits := h.tasks task
    simp only [Service.step]
    split
    next id previous maxFileBytes initialLen accepted inflight hstate =>
      rw [hstate] at hfits
      obtain ⟨howns, hinitial, -⟩ := hfits
      exact h.become (fun _ _ he => by cases he) (hinitial ▸ howns.become)
    next => exact h
  | issue task count =>
    have hfits := h.tasks task
    simp only [Service.step]
    split
    next id previous maxFileBytes initialLen accepted queued hstate =>
      rw [hstate] at hfits
      obtain ⟨howns, hinitial, hcontent⟩ := hfits
      refine h.become (fun _ _ he => by cases he) ⟨howns.become, hinitial, ?_⟩
      change s.content id ++ queued.take count ++ queued.drop count = s.received id ++ accepted
      rw [List.append_assoc, List.take_append_drop, ← hcontent, List.append_nil]
    next => exact h
  | lands task =>
    have hfits := h.tasks task
    simp only [Service.step]
    split
    next id previous maxFileBytes initialLen accepted queued inflight hstate =>
      rw [hstate] at hfits
      obtain ⟨howns, hinitial, hcontent⟩ := hfits
      refine h.wrote howns (howns.received_prefix h inflight) (fun _ _ he => by cases he)
        ⟨howns.wrote, hinitial, ?_⟩
      rw [content_wrote, List.append_nil]
      exact hcontent
    next id initialLen inflight hstate =>
      rw [hstate] at hfits
      have howns : s.Owns task id initialLen := hfits
      exact h.wrote howns (howns.received_prefix h inflight) (fun _ _ he => by cases he) howns.wrote
    next => exact h
  | landFails task count =>
    have hfits := h.tasks task
    simp only [Service.step]
    split
    next id previous maxFileBytes initialLen accepted queued inflight hstate =>
      rw [hstate] at hfits
      obtain ⟨howns, hinitial, -⟩ := hfits
      exact h.wrote howns (howns.received_prefix h _) (fun _ _ he => by cases he) (hinitial ▸ howns.wrote)
    next id initialLen inflight hstate =>
      rw [hstate] at hfits
      have howns : s.Owns task id initialLen := hfits
      exact h.wrote howns (howns.received_prefix h _) (fun _ _ he => by cases he) howns.wrote
    next => exact h
  | acknowledge task now =>
    have hfits := h.tasks task
    simp only [Service.step]
    split
    next id previous maxFileBytes initialLen accepted hstate =>
      rw [hstate] at hfits
      obtain ⟨howns, -, hcontent⟩ := hfits
      rw [List.append_nil, List.append_nil] at hcontent
      split
      next session hsession =>
        split_ifs
        · exact h.leave howns.owner
        · exact h.acknowledge howns hcontent hsession
      next => exact h.leave howns.owner
    next => exact h
  | truncate task =>
    have hfits := h.tasks task
    simp only [Service.step]
    split
    next id initialLen hstate =>
      rw [hstate] at hfits
      exact h.become (fun _ _ he => by cases he) (Owns.become hfits)
    next => exact h
  | truncated task done =>
    have hfits := h.tasks task
    simp only [Service.step]
    split
    next id initialLen hstate =>
      rw [hstate] at hfits
      have howns : s.Owns task id initialLen := hfits
      split_ifs
      · refine h.leaves howns ?_
        have hfile := howns.received_prefix h []
        rw [List.append_nil] at hfile
        rw [howns.length, resize_of_prefix hfile]
      · exact h.leave howns.owner
    next => exact h
  | process task done =>
    have hfits := h.tasks task
    simp only [Service.step]
    split
    next id expectedBytes hstate =>
      rw [hstate] at hfits
      exact h.process hfits
    next => exact h
  | cancel task =>
    have hfits := h.tasks task
    simp only [Service.step]
    split
    next => exact h.become (fun _ _ he => by cases he) trivial
    next => exact h.become (fun _ _ he => by cases he) trivial
    next operation hstate =>
      rw [hstate] at hfits
      exact h.leave hfits
    next id previous maxFileBytes hstate =>
      rw [hstate] at hfits
      exact h.leave hfits.1.owner
    next id previous maxFileBytes initialLen accepted queued inflight hstate =>
      rw [hstate] at hfits
      exact h.drop hfits.1 fun n hn => absurd hn setLen_notMem_ofInflight
    next id initialLen inflight hstate =>
      rw [hstate] at hfits
      have howns : s.Owns task id initialLen := hfits
      exact h.drop howns fun n hn => absurd hn setLen_notMem_ofInflight
    next id initialLen hstate =>
      rw [hstate] at hfits
      have howns : s.Owns task id initialLen := hfits
      refine h.drop howns fun n hn => ?_
      cases List.mem_singleton.mp hn
      exact howns.length
    next => exact h
  | landsPending index count =>
    simp only [Service.step]
    split
    next id op hop => exact h.landsPending hop
    next => exact h

/-- Where no operation of a dropped append is running on a file whose length is checked, every
run hands over what was acknowledged, of the size declared, and a session at most once. -/
theorem finished_as_acknowledged (maxUploadBytes : Nat) (events : List Event)
    (hsettled : Each (Service.step maxUploadBytes) Settled initial events) :
    Throughout (Service.step maxUploadBytes) (HandsOver maxUploadBytes) initial events :=
  (throughout_of_each (fun _ _ hevent hsound => Sound.step hevent hsound) sound_initial hsettled).imp
    fun _ hsound => hsound.handed

theorem settled_check {readable : Bool} (hquiet : s.pending.isEmpty = true) : s.Settled (.check task readable) := by
  intro id _ op hop
  rw [List.isEmpty_iff.mp hquiet] at hop
  cases hop

/-- An append that fails between two that go through leaves nothing in the file. -/
theorem finished_as_acknowledged_retried :
    Throughout (Service.step 100) (HandsOver 100) initial
      [.start ['a'] (some 3) 0, .call 0 (.append ['a']), .lock 0, .check 0 true, .opens 0 true, .chunk 0 [1, 2],
        .issue 0 2, .lands 0, .acknowledge 0 1, .call 1 (.append ['a']), .lock 1, .check 1 true, .opens 1 true,
        .chunk 1 [9], .issue 1 1, .lands 1, .streamFails 1, .truncate 1, .truncated 1 true,
        .call 2 (.append ['a']), .lock 2, .check 2 true, .opens 2 true, .chunk 2 [3], .issue 2 1, .lands 2,
        .acknowledge 2 2, .call 3 (.finish ['a']), .lock 3, .check 3 true, .process 3 true] :=
  finished_as_acknowledged 100 _
    ⟨fun _ h => (by cases h), trivial, trivial, settled_check (by decide +kernel), trivial, trivial, trivial,
      trivial, trivial, trivial, trivial, settled_check (by decide +kernel), trivial, trivial, trivial, trivial,
      trivial, trivial, trivial, trivial, trivial, settled_check (by decide +kernel), trivial, trivial, trivial,
      trivial, trivial, trivial, trivial, settled_check (by decide +kernel), trivial, trivial⟩

/-- The write of a dropped append lands after a finish has checked the length of the file. -/
theorem dropped_append_handed_over :
    ¬ Throughout (Service.step 100) (HandsOver 100) initial
      [.start ['a'] none 0, .call 0 (.append ['a']), .lock 0, .check 0 true, .opens 0 true, .chunk 0 [1],
        .issue 0 1, .lands 0, .acknowledge 0 1, .call 1 (.append ['a']), .lock 1, .check 1 true, .opens 1 true,
        .chunk 1 [9], .issue 1 1, .cancel 1, .call 2 (.finish ['a']), .lock 2, .check 2 true,
        .landsPending 0 1, .process 2 true] := by
  intro h
  have hcontent := h.last.content ⟨['a'], none, [1, 9]⟩ (List.mem_singleton.mpr rfl)
  exact absurd hcontent (by decide +kernel)

end Service

end StreamArena.Uploads
