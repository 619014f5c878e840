import Mathlib.Data.List.Induction
import Pinnokio.Lib.Dict

/-!
# A mirror kept by differences

A publisher sees one snapshot of a record after another and sends the fields that differ from the snapshot it keeps; it
keeps the new one only if it has sent something.  The mirror writes the fields it receives and never deletes one.  A
field that the kept snapshot lacks counts there with the value `dflt`.

Fields are compared with the `==` of their values, which only has to be transitive; what is sent of a value is `send`
of it.

* `shows_or_dropped` — **after any snapshots, every field of the last one is shown**, except one that an earlier
  snapshot had, a later one dropped, and that has come back with the value `dflt`;
* `changes_again` — nothing is sent of a snapshot that arrives a second time.
-/

namespace Pinnokio.Mirror

variable {K V W : Type*}

/-- A snapshot has the field and a later one does not. -/
def Dropped (k : K) (snaps : List (Dict K V)) : Prop :=
  ∃ s t, [s, t].Sublist snaps ∧ k ∈ s.keys ∧ k ∉ t.keys

theorem Dropped.concat {k : K} {snaps : List (Dict K V)} (h : Dropped k snaps) (cur : Dict K V) :
    Dropped k (snaps ++ [cur]) := by
  obtain ⟨s, t, hst, hs, ht⟩ := h
  exact ⟨s, t, hst.trans (List.sublist_append_left _ _), hs, ht⟩

variable [DecidableEq K]

/-- Write the fields of a message. -/
def receive (send : V → W) (shown : Dict K W) (cs : List (K × V)) : Dict K W :=
  shown.setAll (cs.map fun e => (e.1, send e.2))

/-- What the mirror reads after a message. -/
theorem get?_receive (send : V → W) (shown : Dict K W) {cs : List (K × V)} (hn : (cs.map Prod.fst).Nodup) (k : K) :
    (receive send shown cs).get? k = ((Dict.getList k cs).map send).or (shown.get? k) := by
  have hkeys : ((cs.map fun e => (e.1, send e.2)).map Prod.fst).Nodup := by
    rwa [List.map_map, show Prod.fst ∘ (fun e : K × V => (e.1, send e.2)) = Prod.fst from rfl]
  rw [receive, Dict.get?_setAll _ hkeys, Dict.getList_map_values]

variable [BEq V]

/-- The fields of a snapshot that differ from those that are kept. -/
def changes (dflt : V) (kept cur : Dict K V) : List (K × V) :=
  cur.entries.filter fun e => !(e.2 == (kept.get? e.1).getD dflt)

/-- The snapshot that is kept from now on, and the fields that are sent. -/
def publish (dflt : V) (kept cur : Dict K V) : Dict K V × List (K × V) :=
  if changes dflt kept cur = [] then (kept, []) else (cur, changes dflt kept cur)

/-- A publisher and its mirror. -/
structure Link (K V W : Type*) where
  kept : Dict K V
  shown : Dict K W

/-- Nothing is kept and nothing shown. -/
def Link.empty : Link K V W := ⟨∅, ∅⟩

/-- A snapshot arrives. -/
def Link.step (dflt : V) (send : V → W) (l : Link K V W) (cur : Dict K V) : Link K V W :=
  ⟨(publish dflt l.kept cur).1, receive send l.shown (publish dflt l.kept cur).2⟩

/-- The mirror shows the value of a field, up to `==`; it need not show the default. -/
def Shows (dflt : V) (send : V → W) (shown : Dict K W) (k : K) (v : V) : Prop :=
  (∃ w, shown.get? k = some (send w) ∧ (w = v ∨ (v == w) = true)) ∨ (shown.get? k = none ∧ (v == dflt) = true)

variable {dflt : V} {send : V → W}

/-! ### One message -/

theorem nodup_changes (dflt : V) (kept cur : Dict K V) : ((changes dflt kept cur).map Prod.fst).Nodup :=
  cur.nodup.sublist (List.filter_sublist.map Prod.fst)

theorem mem_changes {kept cur : Dict K V} {k : K} {v : V} :
    (k, v) ∈ changes dflt kept cur ↔ cur.get? k = some v ∧ (v == (kept.get? k).getD dflt) = false := by
  simp [changes, List.mem_filter, Dict.mem_entries_iff]

theorem get?_receive_of_mem (shown : Dict K W) {kept cur : Dict K V} {k : K} {v : V}
    (h : (k, v) ∈ changes dflt kept cur) :
    (receive send shown (changes dflt kept cur)).get? k = some (send v) := by
  have hn := nodup_changes dflt kept cur
  rw [get?_receive send shown hn, (Dict.getList_eq_some_iff hn).mpr h]
  rfl

theorem get?_receive_of_not_mem (shown : Dict K W) {kept cur : Dict K V} {k : K}
    (h : ∀ v, (k, v) ∉ changes dflt kept cur) :
    (receive send shown (changes dflt kept cur)).get? k = shown.get? k := by
  have hnone : Dict.getList k (changes dflt kept cur) = none := by
    rw [Dict.getList_eq_none_iff]
    intro hk
    obtain ⟨⟨k', v⟩, hmem, rfl⟩ := List.mem_map.mp hk
    exact h v hmem
  rw [get?_receive send shown (nodup_changes dflt kept cur), hnone]
  rfl

/-- The mirror after a snapshot, whether something is sent or not. -/
theorem shown_step (l : Link K V W) (cur : Dict K V) :
    (l.step dflt send cur).shown = receive send l.shown (changes dflt l.kept cur) := by
  by_cases h : changes dflt l.kept cur = [] <;> simp [Link.step, publish, h]

theorem kept_step (dflt : V) (send : V → W) (l : Link K V W) (cur : Dict K V) :
    (changes dflt l.kept cur = [] ∧ (l.step dflt send cur).kept = l.kept ∧ (l.step dflt send cur).shown = l.shown) ∨
      (l.step dflt send cur).kept = cur := by
  by_cases h : changes dflt l.kept cur = []
  · exact Or.inl ⟨h, by simp [Link.step, publish, h], by simp [shown_step, h, receive, Dict.setAll]⟩
  · exact Or.inr (by simp [Link.step, publish, h])

/-- A snapshot that arrives again is not sent again. -/
theorem changes_again [ReflBEq V] (dflt : V) (kept cur : Dict K V) : changes dflt (publish dflt kept cur).1 cur = [] := by
  by_cases h : changes dflt kept cur = []
  · simp [publish, h]
  · simp only [publish, if_neg h]
    rw [List.eq_nil_iff_forall_not_mem]
    rintro ⟨k, v⟩ hmem
    obtain ⟨hv, hne⟩ := mem_changes.mp hmem
    simp [hv] at hne

/-! ### Any snapshots -/

/-- The mirror after the snapshots `snaps`. -/
structure Follows (dflt : V) (send : V → W) (snaps : List (Dict K V)) (l : Link K V W) : Prop where
  kept_mem : l.kept = ∅ ∨ l.kept ∈ snaps
  shows : ∀ k v, l.kept.get? k = some v →
    Shows dflt send l.shown k v ∨ ((v == dflt) = true ∧ Dropped k snaps)
  forgotten : ∀ k, k ∈ l.shown.keys → k ∉ l.kept.keys → Dropped k snaps

theorem follows_empty : Follows dflt send [] (Link.empty : Link K V W) :=
  ⟨Or.inl rfl, fun k v h => by simp [Link.empty, Dict.get?, Dict.getList] at h,
    fun k h => by simp [Link.empty] at h⟩

variable [PartialEquivBEq V]

theorem Shows.of_beq {shown : Dict K W} {k : K} {v p : V} (hvp : (v == p) = true)
    (h : Shows dflt send shown k p) : Shows dflt send shown k v := by
  rcases h with ⟨w, hw, hpw⟩ | ⟨hnone, hp⟩
  · refine Or.inl ⟨w, hw, Or.inr ?_⟩
    rcases hpw with rfl | hpw
    · exact hvp
    · exact PartialEquivBEq.trans hvp hpw
  · exact Or.inr ⟨hnone, PartialEquivBEq.trans hvp hp⟩

/-- A field of the snapshot that arrives. -/
theorem Follows.shows_cur {snaps : List (Dict K V)} {l : Link K V W} (h : Follows dflt send snaps l)
    {cur : Dict K V} {k : K} {v : V} (hv : cur.get? k = some v) :
    Shows dflt send (l.step dflt send cur).shown k v ∨ ((v == dflt) = true ∧ Dropped k snaps) := by
  rw [shown_step]
  by_cases hne : (v == (l.kept.get? k).getD dflt) = false
  · -- the field is sent
    have hmem : (k, v) ∈ changes dflt l.kept cur := mem_changes.mpr ⟨hv, hne⟩
    exact Or.inl (Or.inl ⟨v, get?_receive_of_mem l.shown hmem, Or.inl rfl⟩)
  · -- it is not: it is like what is kept, or like the default
    have hsame : (v == (l.kept.get? k).getD dflt) = true := by simpa using hne
    have hread : (receive send l.shown (changes dflt l.kept cur)).get? k = l.shown.get? k := by
      refine get?_receive_of_not_mem l.shown fun w hw => hne ?_
      obtain ⟨hw, hdiff⟩ := mem_changes.mp hw
      rw [hv] at hw
      cases hw
      exact hdiff
    cases hp : l.kept.get? k with
    | some p =>
        rw [hp, Option.getD_some] at hsame
        rcases h.shows k p hp with hshows | ⟨hp, hdrop⟩
        · refine Or.inl ?_
          unfold Shows
          rw [hread]
          exact hshows.of_beq hsame
        · exact Or.inr ⟨PartialEquivBEq.trans hsame hp, hdrop⟩
    | none =>
        rw [hp, Option.getD_none] at hsame
        by_cases hk : k ∈ l.shown.keys
        · exact Or.inr ⟨hsame, h.forgotten k hk (Dict.get?_eq_none_iff.mp hp)⟩
        · exact Or.inl (Or.inr ⟨by rw [hread, Dict.get?_eq_none_iff.mpr hk], hsame⟩)

theorem Follows.step {snaps : List (Dict K V)} {l : Link K V W} (h : Follows dflt send snaps l) (cur : Dict K V) :
    Follows dflt send (snaps ++ [cur]) (l.step dflt send cur) := by
  rcases kept_step dflt send l cur with ⟨-, hkept, hshown⟩ | hkept
  · -- nothing is sent
    refine ⟨?_, ?_, ?_⟩
    · rw [hkept]
      exact h.kept_mem.imp_right (List.mem_append_left _)
    · intro k v hv
      rw [hkept] at hv
      rw [hshown]
      exact (h.shows k v hv).imp_right fun hd => ⟨hd.1, hd.2.concat cur⟩
    · intro k hk hkeep
      rw [hshown] at hk
      rw [hkept] at hkeep
      exact (h.forgotten k hk hkeep).concat cur
  · refine ⟨Or.inr (by simp [hkept]), ?_, ?_⟩
    · intro k v hv
      rw [hkept] at hv
      exact (h.shows_cur hv).imp_right fun hd => ⟨hd.1, hd.2.concat cur⟩
    · intro k hk hcur
      rw [hkept] at hcur
      -- a field that was shown before
      have hold : k ∈ l.shown.keys := by
        obtain ⟨w, hw⟩ := Dict.mem_keys_iff.mp hk
        rw [shown_step, get?_receive_of_not_mem l.shown fun v hv =>
          hcur (Dict.mem_keys_of_get? (mem_changes.mp hv).1)] at hw
        exact Dict.mem_keys_of_get? hw
      by_cases hk' : k ∈ l.kept.keys
      · refine ⟨l.kept, cur, ?_, hk', hcur⟩
        rcases h.kept_mem with hempty | hmem
        · rw [hempty] at hk'
          simp at hk'
        · exact (List.singleton_sublist.mpr hmem).append (List.Sublist.refl [cur])
      · exact (h.forgotten k hold hk').concat cur

theorem follows_foldl (snaps : List (Dict K V)) :
    Follows dflt send snaps (snaps.foldl (Link.step dflt send) (Link.empty : Link K V W)) := by
  induction snaps using List.reverseRecOn with
  | nil => exact follows_empty
  | append_singleton snaps cur ih =>
      rw [List.foldl_append]
      exact ih.step cur

/-- **Every field of the last snapshot is shown**, or it has come back with the default value. -/
theorem shows_or_dropped (dflt : V) (send : V → W) (snaps : List (Dict K V)) {cur : Dict K V} {k : K} {v : V}
    (hv : cur.get? k = some v) :
    Shows dflt send ((snaps ++ [cur]).foldl (Link.step dflt send) (Link.empty : Link K V W)).shown k v ∨
      ((v == dflt) = true ∧ Dropped k snaps) := by
  rw [List.foldl_append]
  exact (follows_foldl snaps).shows_cur hv

end Pinnokio.Mirror
