import KdxHotline.Presence.Roster

/-!
# Who was told what

What is kept, turn by turn, while announcements wait (`KdxHotline.Presence.Told`): a session that
left is announced as offline only by the announcement that waits for it, so that everybody who was
there then and still is hears of it once, and nothing of it afterwards.

A session that was found to be gone may still be in the roster while others are taken out; such
sessions are *doomed*. A round adds to them (`KdxHotline.Presence.Told.turn`) and taking one out
makes them fewer (`KdxHotline.Presence.Told.bury`).
-/

namespace KdxHotline

namespace Presence

open Foundations Protocol

variable {w : World} {s s' : Roster} {c : Cascade} {id subject recipient : SessionId} {e : Entry}
  {joined doomed dead : List SessionId} {tried : List Attempt} {p : Announcement}
  {rest : List Announcement} {a : Attempt} {now : ℕ}

/-! ### Entries -/

namespace Roster

theorem mem_ids_remove : subject ∈ (s.remove id).ids ↔ subject ∈ s.ids ∧ subject ≠ id := by
  simp only [ids, remove, List.mem_map, List.mem_filter, bne_iff_ne]
  constructor
  · rintro ⟨e, ⟨he, hne⟩, rfl⟩
    exact ⟨⟨e, he, rfl⟩, hne⟩
  · rintro ⟨⟨e, he, rfl⟩, hne⟩
    exact ⟨e, ⟨he, hne⟩, rfl⟩

/-- The roster has one session more. -/
theorem mem_ids_insert : subject ∈ (s.insert id e).ids ↔ subject ∈ s.ids ∨ subject = id := by
  simp only [ids, insert, List.map_append, List.mem_append, List.mem_map, List.mem_filter,
    bne_iff_ne, List.mem_singleton]
  constructor
  · rintro (⟨e', ⟨he', -⟩, rfl⟩ | ⟨e', rfl, rfl⟩)
    · exact .inl ⟨e', he', rfl⟩
    · exact .inr rfl
  · rintro (⟨e', he', rfl⟩ | rfl)
    · by_cases hid : e'.1 = id
      · exact .inr ⟨_, rfl, hid.symm⟩
      · exact .inl ⟨e', ⟨he', hid⟩, rfl⟩
    · exact .inr ⟨_, rfl, rfl⟩

@[simp] theorem ids_update (f : Entry → Entry) : (s.update id f).ids = s.ids :=
  map_setWhere fun _ => rfl

@[simp] theorem ids_record : (s.record tried).ids = s.ids := rfl

theorem entry_eq_none_iff : s.entry id = none ↔ id ∉ s.ids := by
  simp only [entry, Option.map_eq_none_iff, List.find?_eq_none, beq_iff_eq, ids, List.mem_map,
    not_exists, not_and]

theorem mem_of_entry (h : s.entry id = some e) : (id, e) ∈ s.entries := by
  rw [entry, Option.map_eq_some_iff] at h
  obtain ⟨⟨id', e'⟩, hfind, rfl⟩ := h
  have hid : (id' == id) = true := @List.find?_some (SessionId × Entry) (fun e => e.1 == id) _ _ hfind
  obtain rfl := beq_iff_eq.mp hid
  exact List.mem_of_find?_eq_some hfind

theorem mem_ids_of_entry (h : s.entry id = some e) : id ∈ s.ids :=
  List.mem_map.mpr ⟨_, mem_of_entry h, rfl⟩

end Roster

/-! ### One round -/

/-- What a round attempts, it attempts for a session of the roster. -/
theorem mem_attempts {select : SessionId → Entry → Bool} {attempt : SessionId → Entry → Attempt} :
    a ∈ attempts w s select attempt ↔
      ∃ id e, (id, e) ∈ s.entries ∧ select id e = true ∧ attempt id e = a := by
  simp only [attempts, List.mem_map, List.mem_filter, (w.order_perm _ _).mem_iff, Prod.exists,
    and_assoc]

/-- **A round attempts each session once.** -/
theorem nodup_recipients {select : SessionId → Entry → Bool}
    {attempt : SessionId → Entry → Attempt} (h : ∀ id e, (attempt id e).recipient = id) :
    ((attempts w s select attempt).map Attempt.recipient).Nodup := by
  have hids : (attempts w s select attempt).map Attempt.recipient =
      ((w.order s.rounds s.entries).filter fun e => select e.1 e.2).map Prod.fst := by
    rw [attempts, List.map_map]
    exact List.map_congr_left fun e _ => h e.1 e.2
  rw [hids]
  exact (((w.order_perm _ _).map Prod.fst).nodup_iff.mpr s.entries_session).sublist
    (List.filter_sublist.map _)

/-- What an announcement attempts. -/
theorem mem_announcing : a ∈ announcing w s p ↔ ∃ id e, (id, e) ∈ s.entries ∧
    (some id != p.exclude) = true ∧ Attempt.change id p.subject p.change.online
      (if e.seesAddresses then changeFrame p.change
        else changeFrame { p.change with entry := redactAddress p.change.entry })
      (w.queue s.rounds id) = a := by
  rw [announcing]
  exact mem_attempts

theorem nodup_announcing : ((announcing w s p).map Attempt.recipient).Nodup := by
  rw [announcing]
  exact nodup_recipients fun _ _ => rfl

theorem announces_announcing (h : a ∈ announcing w s p) (online : Bool) :
    a.announces subject online = (p.subject == subject && p.change.online == online) := by
  obtain ⟨id, e, -, -, rfl⟩ := mem_announcing.mp h
  rfl

theorem announcesTo_announcing :
    (announcing w s p).countP (Attempt.announcesTo recipient p.subject p.change.online) =
      ((announcing w s p).map Attempt.recipient).count recipient := by
  rw [List.count, List.countP_map]
  refine List.countP_congr fun a ha => ?_
  rw [Attempt.announcesTo, announces_announcing ha, beq_self_eq_true, beq_self_eq_true,
    Bool.and_self, Bool.and_true, Function.comp_apply]

/-- An announcement is made to each session at most once. -/
theorem countP_announcing_le (online : Bool) :
    (announcing w s p).countP (Attempt.announcesTo recipient subject online) ≤ 1 := by
  by_cases hsame : p.subject = subject ∧ p.change.online = online
  · obtain ⟨rfl, rfl⟩ := hsame
    rw [announcesTo_announcing]
    exact List.nodup_iff_count_le_one.mp nodup_announcing recipient
  · rw [List.countP_eq_zero.mpr]
    · exact Nat.zero_le 1
    · intro a ha
      rw [Attempt.announcesTo, announces_announcing ha]
      simp only [Bool.and_eq_true, beq_iff_eq, not_and]
      exact fun _ hsubject honline => hsame ⟨hsubject, honline⟩

/-- An announcement of one session is none of another. -/
theorem countP_announcing_other {online : Bool} (h : p.subject ≠ subject) :
    (announcing w s p).countP (Attempt.announcesTo recipient subject online) = 0 := by
  refine List.countP_eq_zero.mpr fun a ha => ?_
  rw [Attempt.announcesTo, announces_announcing ha]
  simp only [Bool.and_eq_true, beq_iff_eq, not_and]
  exact fun _ hsubject _ => h hsubject

/-- **Whoever is there hears an announcement that excludes nobody.** -/
theorem countP_announcing_present (hexclude : p.exclude = none) (h : recipient ∈ s.ids) :
    (announcing w s p).countP (Attempt.announcesTo recipient p.subject p.change.online) = 1 := by
  rw [announcesTo_announcing]
  refine List.count_eq_one_of_mem nodup_announcing ?_
  obtain ⟨⟨id, e⟩, he, rfl⟩ := List.mem_map.mp h
  refine List.mem_map.mpr ⟨_, mem_announcing.mpr ⟨id, e, he, ?_, rfl⟩, rfl⟩
  rw [hexclude]
  rfl

/-! ### The invariant -/

/-- What is known while announcements wait, of the sessions that joined and those that are doomed. -/
structure Told (joined doomed : List SessionId) (c : Cascade) : Prop where
  present : ∀ id ∈ c.roster.ids, id ∈ joined
  left : ∀ id ∈ joined, id ∉ c.roster.ids → ∃ d ∈ c.roster.departed, d.session = id
  gone : ∀ d ∈ c.roster.departed, d.session ∈ joined ∧ d.session ∉ c.roster.ids ∧
    ∀ id ∈ d.present, id ∈ joined
  once : (c.roster.departed.map Departure.session).Nodup
  /-- What waits is that a session that left is offline. -/
  pending : ∀ p ∈ c.pending, p.exclude = none ∧ p.change.online = false ∧
    ∃ d ∈ c.roster.departed, d.session = p.subject
  waiting : (c.pending.map Announcement.subject).Nodup
  /-- Nobody is announced as offline before they left, or while it waits. -/
  quiet : ∀ a ∈ c.roster.log, ∀ subject, a.announces subject false = true →
    (∃ d ∈ c.roster.departed, d.session = subject) ∧ ∀ p ∈ c.pending, p.subject ≠ subject
  told : ∀ d ∈ c.roster.departed, (∀ p ∈ c.pending, p.subject ≠ d.session) →
    ∀ id ∈ d.present, id ∈ c.roster.ids →
      c.roster.log.countP (Attempt.announcesTo id d.session false) = 1
  atMost : ∀ id subject, c.roster.log.countP (Attempt.announcesTo id subject false) ≤ 1
  ordered : c.roster.log.Pairwise fun a b =>
    ∀ subject, a.announces subject false = true → b.announces subject true = false
  closed : ∀ a ∈ c.roster.log, a.foundClosed = true → a.recipient ∈ joined ∧
    (a.recipient ∈ c.roster.ids → a.recipient ∈ doomed)

namespace Told

theorem new : Told [] [] ⟨.new, []⟩ := by
  constructor <;> simp [Roster.new, Roster.ids]

/-- Only the sessions, the log and the departures matter. -/
theorem congr (h : Told joined doomed ⟨s, rest⟩) (hids : s'.ids = s.ids) (hlog : s'.log = s.log)
    (hdeparted : s'.departed = s.departed) : Told joined doomed ⟨s', rest⟩ := by
  constructor <;> simp only [hids, hlog, hdeparted]
  · exact h.present
  · exact h.left
  · exact h.gone
  · exact h.once
  · exact h.pending
  · exact h.waiting
  · exact h.quiet
  · exact h.told
  · exact h.atMost
  · exact h.ordered
  · exact h.closed

/-- A session that left hears of itself no more, before its announcement is made. -/
theorem countP_waiting (h : Told joined doomed c) (hp : p ∈ c.pending) :
    c.roster.log.countP (Attempt.announcesTo recipient p.subject false) = 0 := by
  refine List.countP_eq_zero.mpr fun a ha htells => ?_
  rw [Attempt.announcesTo, Bool.and_eq_true] at htells
  exact (h.quiet a ha p.subject htells.2).2 p hp rfl

/-- Who is found to be gone in a round is doomed. -/
theorem mem_deadOf (ha : a ∈ tried) (hclosed : a.foundClosed = true) :
    a.recipient ∈ deadOf tried :=
  List.mem_map.mpr ⟨a, List.mem_filter.mpr ⟨ha, hclosed⟩, rfl⟩

/-- **A round that announces nobody as offline.** Whom it announces as online is there. -/
theorem record (h : Told joined doomed ⟨s, rest⟩) (hrecipients : ∀ a ∈ tried,
      a.foundClosed = true → a.recipient ∈ joined)
    (honline : ∀ a ∈ tried, ∀ subject, a.announces subject true = true → subject ∈ s.ids)
    (hoffline : ∀ a ∈ tried, ∀ subject, a.announces subject false = false) :
    Told joined (deadOf tried ++ doomed) ⟨s.record tried, rest⟩ := by
  have hcount (id subject : SessionId) : (s.record tried).log.countP
      (Attempt.announcesTo id subject false) = s.log.countP (Attempt.announcesTo id subject false) := by
    have hnone : tried.countP (Attempt.announcesTo id subject false) = 0 := by
      refine List.countP_eq_zero.mpr fun a ha htells => ?_
      rw [Attempt.announcesTo, hoffline a ha, Bool.and_false] at htells
      cases htells
    rw [Roster.record, List.countP_append, hnone, Nat.add_zero]
  constructor
  case present => exact h.present
  case left => exact h.left
  case gone => exact h.gone
  case once => exact h.once
  case pending => exact h.pending
  case waiting => exact h.waiting
  case quiet =>
    intro a ha subject htells
    rcases List.mem_append.mp ha with hold | hnew
    · exact h.quiet a hold subject htells
    · rw [hoffline a hnew] at htells
      cases htells
  case told =>
    intro d hd hwaits id hid hpresent
    exact (hcount _ _).trans (h.told d hd hwaits id hid hpresent)
  case atMost => exact fun id subject => (hcount _ _).trans_le (h.atMost id subject)
  case ordered =>
    refine List.pairwise_append.mpr ⟨h.ordered, ?_, ?_⟩
    · refine List.pairwise_of_forall_mem_list fun a ha b _ subject htells => ?_
      rw [hoffline a ha] at htells
      cases htells
    · intro a ha b hb subject htells
      -- who is announced as online is there, so nothing was said of them before
      obtain ⟨⟨d, hd, rfl⟩, -⟩ := h.quiet a ha subject htells
      exact Bool.eq_false_iff.mpr fun hon => (h.gone d hd).2.1 (honline b hb _ hon)
  case closed =>
    intro a ha hclosed
    rcases List.mem_append.mp ha with hold | hnew
    · obtain ⟨hjoined, hdoomed⟩ := h.closed a hold hclosed
      exact ⟨hjoined, fun hid => List.mem_append_right _ (hdoomed hid)⟩
    · exact ⟨hrecipients a hnew hclosed, fun _ => List.mem_append_left _ (mem_deadOf hnew hclosed)⟩

/-- **The announcement that a session is offline.** -/
theorem announce (h : Told joined doomed ⟨s, p :: rest⟩) :
    Told joined (deadOf (announcing w s p) ++ doomed) ⟨s.record (announcing w s p), rest⟩ := by
  obtain ⟨hexclude, hoffline, hgone⟩ := h.pending p List.mem_cons_self
  obtain ⟨hfirst, hrest⟩ := List.nodup_cons.mp h.waiting
  have hdone : ∀ q ∈ rest, q.subject ≠ p.subject := fun q hq he =>
    hfirst (he ▸ List.mem_map_of_mem hq)
  constructor
  case present => exact h.present
  case left => exact h.left
  case gone => exact h.gone
  case once => exact h.once
  case pending => exact fun q hq => h.pending q (List.mem_cons_of_mem _ hq)
  case waiting => exact hrest
  case quiet =>
    intro a ha subject htells
    rcases List.mem_append.mp ha with hold | hnew
    · obtain ⟨hleft, hwaits⟩ := h.quiet a hold subject htells
      exact ⟨hleft, fun q hq => hwaits q (List.mem_cons_of_mem _ hq)⟩
    · rw [announces_announcing hnew, Bool.and_eq_true, beq_iff_eq] at htells
      exact htells.1 ▸ ⟨hgone, hdone⟩
  case told =>
    intro d hd hwaits id hid hpresent
    show (s.log ++ announcing w s p).countP _ = 1
    rw [List.countP_append]
    -- either it is told now, once to all that are there, or this tells nothing of it
    by_cases hself : p.subject = d.session
    · have hin : id ∈ s.ids := hpresent
      have hnow := @countP_announcing_present w _ _ _ hexclude hin
      rw [hoffline] at hnow
      rw [← hself, h.countP_waiting List.mem_cons_self, hnow]
    · have hbefore := h.told d hd (fun q hq => ?_) id hid hpresent
      · rw [countP_announcing_other hself, hbefore]
      · rcases List.mem_cons.mp hq with rfl | hq
        · exact hself
        · exact hwaits q hq
  case atMost =>
    intro id subject
    show (s.log ++ announcing w s p).countP _ ≤ 1
    rw [List.countP_append]
    by_cases hself : p.subject = subject
    · rw [← hself, h.countP_waiting List.mem_cons_self, Nat.zero_add]
      exact countP_announcing_le false
    · rw [countP_announcing_other hself]
      exact h.atMost id subject
  case ordered =>
    -- what is announced is that the subject went offline, so nothing comes online after it
    have hnever : ∀ b ∈ announcing w s p, ∀ subject, b.announces subject true = false := by
      intro b hb subject
      rw [announces_announcing hb, hoffline]
      exact Bool.and_false _
    exact List.pairwise_append.mpr ⟨h.ordered,
      List.pairwise_of_forall_mem_list fun a _ b hb subject _ => hnever b hb subject,
      fun a _ b hb subject _ => hnever b hb subject⟩
  case closed =>
    intro a ha hclosed
    rcases List.mem_append.mp ha with hold | hnew
    · obtain ⟨hjoined, hdoomed⟩ := h.closed a hold hclosed
      exact ⟨hjoined, fun hid => List.mem_append_right _ (hdoomed hid)⟩
    · obtain ⟨id, e, he, -, rfl⟩ := mem_announcing.mp hnew
      exact ⟨h.present id (List.mem_map.mpr ⟨_, he, rfl⟩),
        fun _ => List.mem_append_left _ (mem_deadOf hnew hclosed)⟩

/-- **Taking out a session that is doomed.** If it is gone already nothing happens. -/
theorem bury (h : Told joined (id :: doomed) c) : Told joined doomed (c.bury now id) := by
  rw [Cascade.bury]
  cases hentry : c.roster.entry id with
  | none =>
    have hout : id ∉ c.roster.ids := Roster.entry_eq_none_iff.mp hentry
    refine { h with closed := fun a ha hclosed => ?_ }
    obtain ⟨hjoined, hdoomed⟩ := h.closed a ha hclosed
    refine ⟨hjoined, fun hid => ?_⟩
    rcases List.mem_cons.mp (hdoomed hid) with rfl | hlater
    · exact absurd hid hout
    · exact hlater
  | some gone =>
    have hin : id ∈ c.roster.ids := Roster.mem_ids_of_entry hentry
    have hfresh : ∀ d ∈ c.roster.departed, d.session ≠ id := fun d hd he =>
      (h.gone d hd).2.1 (he ▸ hin)
    constructor
    case present => exact fun other hother => h.present other (Roster.mem_ids_remove.mp hother).1
    case left =>
      intro other hjoined hout
      -- the only one to leave by this is `id`
      by_cases hself : other = id
      · exact ⟨_, List.mem_append_right _ (List.mem_singleton_self _), hself.symm⟩
      · have hbefore : other ∉ c.roster.ids := fun hother =>
          hout (Roster.mem_ids_remove.mpr ⟨hother, hself⟩)
        obtain ⟨d, hd, he⟩ := h.left other hjoined hbefore
        exact ⟨d, List.mem_append_left _ hd, he⟩
    case gone =>
      intro d hd
      rcases List.mem_append.mp hd with hold | hnew
      · obtain ⟨hjoined, hout, hpresent⟩ := h.gone d hold
        exact ⟨hjoined, fun hin' => hout (Roster.mem_ids_remove.mp hin').1, hpresent⟩
      · obtain rfl := List.mem_singleton.mp hnew
        exact ⟨h.present id hin, fun hin' => (Roster.mem_ids_remove.mp hin').2 rfl,
          fun other hother => h.present other (Roster.mem_ids_remove.mp hother).1⟩
    case once =>
      show ((c.roster.departed ++ [_]).map Departure.session).Nodup
      rw [List.map_append, List.map_singleton]
      -- it is still present, so it has not departed before
      refine List.nodup_append.mpr ⟨h.once, List.nodup_singleton _, fun x hx y hy he => ?_⟩
      obtain ⟨d, hd, rfl⟩ := List.mem_map.mp hx
      exact hfresh d hd (he.trans (List.mem_singleton.mp hy))
    case pending =>
      intro p hp
      rcases List.mem_cons.mp hp with rfl | hp
      · exact ⟨rfl, rfl, _, List.mem_append_right _ (List.mem_singleton_self _), rfl⟩
      · obtain ⟨hexclude, hoffline, d, hd, he⟩ := h.pending p hp
        exact ⟨hexclude, hoffline, d, List.mem_append_left _ hd, he⟩
    case waiting =>
      refine List.nodup_cons.mpr ⟨fun hmem => ?_, h.waiting⟩
      obtain ⟨p, hp, he⟩ := List.mem_map.mp hmem
      obtain ⟨-, -, d, hd, hd'⟩ := h.pending p hp
      exact hfresh d hd (hd'.trans he)
    case quiet =>
      intro a ha subject htells
      obtain ⟨⟨d, hd, rfl⟩, hwaits⟩ := h.quiet a ha subject htells
      refine ⟨⟨d, List.mem_append_left _ hd, rfl⟩, fun p hp => ?_⟩
      rcases List.mem_cons.mp hp with rfl | hp
      · exact (hfresh d hd).symm
      · exact hwaits p hp
    case told =>
      intro d hd hwaits other hother hin'
      rcases List.mem_append.mp hd with hold | hnew
      · exact h.told d hold (fun p hp => hwaits p (List.mem_cons_of_mem _ hp)) other hother
          (Roster.mem_ids_remove.mp hin').1
      · -- the new departure waits
        obtain rfl := List.mem_singleton.mp hnew
        exact absurd rfl (hwaits _ List.mem_cons_self)
    case atMost => exact h.atMost
    case ordered => exact h.ordered
    case closed =>
      intro a ha hclosed
      obtain ⟨hjoined, hdoomed⟩ := h.closed a ha hclosed
      refine ⟨hjoined, fun hin' => ?_⟩
      obtain ⟨hbefore, hne⟩ := Roster.mem_ids_remove.mp hin'
      exact (List.mem_cons.mp (hdoomed hbefore)).resolve_left hne

theorem buryAll (h : Told joined (dead ++ doomed) c) :
    Told joined doomed (dead.foldl (Cascade.bury now) c) := by
  induction dead generalizing c with
  | nil => exact h
  | cons id dead ih => exact ih (bury h)

/-- **One turn of the loop.** -/
theorem turn (h : Told joined doomed c) : Told joined doomed (c.turn w) := by
  obtain ⟨s, pending⟩ := c
  cases pending with
  | nil => exact h
  | cons p rest => exact buryAll h.announce

theorem turns (h : Told joined doomed c) (n : ℕ) : Told joined doomed ((Cascade.turn w)^[n] c) :=
  Function.Iterate.rec (Told joined doomed) h (fun _ hc => hc.turn) n

end Told

/-! ### The loop ends -/

namespace Cascade

theorem length_entries_remove (h : id ∈ s.ids) :
    (s.remove id).entries.length < s.entries.length := by
  obtain ⟨e, he, rfl⟩ := List.mem_map.mp h
  exact List.length_filter_lt_length_iff_exists.mpr ⟨e, he, by simp⟩

/-- Who is taken out makes room for the announcement. -/
theorem measure_bury_le : (c.bury now id).measure ≤ c.measure := by
  rw [bury]
  cases hentry : c.roster.entry id with
  | none => exact Nat.le_refl _
  | some gone =>
    have hlt := length_entries_remove (Roster.mem_ids_of_entry hentry)
    rw [measure, measure, List.length_cons]
    dsimp only
    omega

theorem measure_buryAll_le : (dead.foldl (bury now) c).measure ≤ c.measure := by
  induction dead generalizing c with
  | nil => exact Nat.le_refl _
  | cons id dead ih => exact ih.trans measure_bury_le

/-- **A turn brings the end nearer.** -/
theorem measure_turn_lt (h : c.pending ≠ []) : (c.turn w).measure < c.measure := by
  obtain ⟨s, pending⟩ := c
  cases pending with
  | nil => exact absurd rfl h
  | cons p rest =>
    refine Nat.lt_of_le_of_lt measure_buryAll_le ?_
    rw [measure, measure, List.length_cons]
    show 2 * s.entries.length + rest.length < _
    dsimp only
    omega

/-- **The loop ends** within its measure. -/
theorem pending_of_measure_le {n : ℕ} (h : c.measure ≤ n) : ((turn w)^[n] c).pending = [] := by
  induction n generalizing c with
  | zero =>
    rw [measure] at h
    show c.pending = []
    exact List.eq_nil_of_length_eq_zero (by omega)
  | succ n ih =>
    rw [Function.iterate_succ_apply]
    by_cases hdone : c.pending = []
    · have hstays : c.turn w = c := by rw [turn, hdone]
      have hiterate : (turn w)^[n] c = c := Function.iterate_fixed hstays n
      rw [hstays, hiterate, hdone]
    · exact ih (Nat.le_of_lt_succ (Nat.lt_of_lt_of_le (measure_turn_lt hdone) h))

theorem pending_run : (c.run w).pending = [] := pending_of_measure_le (Nat.le_refl _)

end Cascade

end Presence

end KdxHotline
