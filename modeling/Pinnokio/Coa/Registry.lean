import Pinnokio.Coa.Intact

/-!
# The functions of a company as a map

As long as every call that writes finds the document as it has read it, the document is a map from names to functions
with their natures, which the calls change one after another.

* `Registry.Step` — what a request does to the map, and how it is answered;
* `step_answer`, `step_load` — one call on the document does this;
* `registry_follows` — every interleaving without overwriting is a run of the map.
-/

namespace Pinnokio.Coa

open Pinnokio.Filing Pinnokio.Interleaving Pinnokio.Text

/-! ### The functions as a map -/

/-- What the document is for: the functions by name, each with its nature. -/
abbrev Registry := String → Option (String × KlkFunction)

/-- The functions of a document by name. -/
def lookup (doc : Option Doc) : Registry := fun n => doc.bind fun d => locate KlkFunction.key d n

/-- What a request that is answered in a certain way does to the functions.  A load that reads them answers what they
are; one that is answered from the cache leaves them alone, whatever is kept there; and a company without functions gets
those of the seed. -/
inductive Registry.Step (seeded : Registry) : Registry → Request × Reply → Registry → Prop
  | toggle {reg : Registry} {n k : String} {f : KlkFunction} (active : Bool) (h : reg n = some (k, f)) :
      Step seeded reg (.toggle n active, .toggled n active)
        (Function.update reg n (some (k, { f with active := some active })))
  | create {reg : Registry} {n nature : String} {f : KlkFunction} (displayName definition : String) (active : Bool)
      (hn : isCustomName n = true) (hnew : reg n = none)
      (hf : f = ⟨some n, some (strip displayName), some definition, some active, none⟩) :
      Step seeded reg (.create displayName nature definition active,
          .saved f (strip (orElse nature "PROFIT_AND_LOSS")))
        (Function.update reg n (some (strip (orElse nature "PROFIT_AND_LOSS"), f)))
  | update {reg : Registry} {name k : String} {f : KlkFunction} (c : Changes) (hn : isCustomName (strip name) = true)
      (h : reg (strip name) = some (k, f)) :
      Step seeded reg (.update name c, .saved (c.apply f) (c.natureOr k))
        (Function.update reg (strip name) (some (c.natureOr k, c.apply f)))
  | delete {reg : Registry} {name k : String} {f : KlkFunction} (hn : isCustomName (strip name) = true)
      (h : reg (strip name) = some (k, f)) :
      Step seeded reg (.delete name, .deleted (strip name)) (Function.update reg (strip name) none)
  | load {reg : Registry} {fs : List (KlkFunction × String)} (natureNames : List (String × String))
      (hfs : ∀ n k g, ((g, k) ∈ fs ∧ g.key = some n) ↔ ∃ f, reg n = some (k, f) ∧ g = ofListEntry f) :
      Step seeded reg (.load, .loaded fs natureNames false) reg
  | cached {reg : Registry} (kept : Result) : Step seeded reg (.load, .cached kept) reg
  | seed {reg : Registry} (fs : List (KlkFunction × String)) (natureNames : List (String × String))
      (hempty : ∀ n, reg n = none) : Step seeded reg (.load, .loaded fs natureNames true) seeded

/-- Requests answered one after another. -/
inductive Registry.Run (seeded : Registry) : Registry → List (Request × Reply) → Registry → Prop
  | nil (reg : Registry) : Run seeded reg [] reg
  | snoc {reg reg' reg'' : Registry} {log : List (Request × Reply)} {e : Request × Reply} (h : Run seeded reg log reg')
      (he : Step seeded reg' e reg'') : Run seeded reg (log ++ [e]) reg''

/-- A call that writes finds the document as it has read it. -/
def FindsWhatItRead (p : Pool Store Pc) (i : ℕ) : Prop :=
  match p.threads[i]? with
  | some (.writing c read _ _) => c.writeFails = none → p.shared.doc = read
  | _ => True

instance (p : Pool Store Pc) (i : ℕ) : Decidable (FindsWhatItRead p i) := by
  unfold FindsWhatItRead
  cases p.threads[i]? with
  | none => exact isTrue trivial
  | some pc =>
      cases pc with
      | writing c read d reply => exact inferInstanceAs (Decidable (c.writeFails = none → p.shared.doc = read))
      | start c => exact isTrue trivial
      | seeding c read => exact isTrue trivial
      | done r => exact isTrue trivial

section Registry

variable {nfkd : String → String} {seed : Option Seed} {d d' : Doc} {reply : Reply}

theorem lookup_eq_none_iff {n : String} : lookup (some d) n = none ↔ n ∉ names KlkFunction.key d := locate_eq_none_iff

theorem ofListEntry_key (f : KlkFunction) : (ofListEntry f).key = f.key := key_congr rfl

theorem mem_extracted {g : KlkFunction} {k : String} :
    (g, k) ∈ (extractFunctionsAndNatures d.natures).1 ↔ ∃ f ∈ itemsAt d k, g = ofListEntry f := by
  simp only [extractFunctionsAndNatures, Doc.natures, Functions.extracted, List.flatMap_map, List.mem_flatMap,
    List.mem_map, mem_itemsAt, mem_pairs]
  constructor
  · rintro ⟨e, he, g', ⟨f, hf, rfl⟩, heq⟩
    cases heq
    exact ⟨f, ⟨e.2, he, hf⟩, rfl⟩
  · rintro ⟨f, ⟨dr, he, hf⟩, rfl⟩
    exact ⟨(k, dr), he, ofListEntry f, ⟨f, hf, rfl⟩, rfl⟩

/-- What a load answers is what the functions are. -/
theorem step_load (h : (names KlkFunction.key d).Nodup) (hl : loadExisting (some d) = some reply) (seeded : Registry) :
    Registry.Step seeded (lookup (some d)) (.load, reply) (lookup (some d)) := by
  have hfs : reply =
      .loaded (extractFunctionsAndNatures d.natures).1 (extractFunctionsAndNatures d.natures).2 false := by
    unfold loadExisting at hl
    dsimp only at hl
    split at hl
    · cases hl
    · rename_i fs natureNames he
      cases hl
      rw [he]
  rw [hfs]
  refine .load _ fun n k g => ?_
  rw [mem_extracted]
  constructor
  · rintro ⟨⟨f, hf, rfl⟩, hkey⟩
    rw [ofListEntry_key] at hkey
    exact ⟨f, (locate_eq_some_iff h).mpr ⟨hf, hkey⟩, rfl⟩
  · rintro ⟨f, hf, rfl⟩
    obtain ⟨hmem, hkey⟩ := (locate_eq_some_iff h).mp hf
    exact ⟨⟨f, hmem, rfl⟩, (ofListEntry_key f).trans hkey⟩

/-- A document from which nothing is loaded has no functions. -/
theorem lookup_of_not_loaded {doc : Option Doc} (hl : loadExisting doc = none) (n : String) : lookup doc n = none := by
  cases doc with
  | none => rfl
  | some d =>
      have hfs : (extractFunctionsAndNatures d.natures).1 = [] := by
        unfold loadExisting at hl
        dsimp only at hl
        split at hl
        · rename_i he
          rw [he]
        · cases hl
      rw [lookup_eq_none_iff, mem_names]
      rintro ⟨k, f, hf, -⟩
      have hmem := mem_extracted.mpr ⟨f, hf, rfl⟩
      rw [hfs] at hmem
      cases hmem

theorem lookup_change (h : (names KlkFunction.key d).Nodup) {n k : String} {f : KlkFunction}
    (hq : locate KlkFunction.key d n = some (k, f)) (g : KlkFunction → KlkFunction) (hg : ∀ f, (g f).name = f.name) :
    lookup (some (change KlkFunction.key d n g)) = Function.update (lookup (some d)) n (some (k, g f)) := by
  funext m
  show locate KlkFunction.key (change KlkFunction.key d n g) m = _
  rw [locate_change h (fun f hf => (key_congr (hg f)).trans hf), Function.update_apply, hq]
  rfl

theorem lookup_put (h : (names KlkFunction.key d).Nodup) {n k : String} {f : KlkFunction} (hf : f.key = some n)
    (hnew : n ∉ names KlkFunction.key d) (label : Option String) :
    lookup (some (put d k label f)) = Function.update (lookup (some d)) n (some (k, f)) := by
  funext m
  show locate KlkFunction.key (put d k label f) m = _
  rw [locate_put h hf hnew, Function.update_apply]
  rfl

theorem lookup_take (h : (names KlkFunction.key d).Nodup) (n : String) :
    lookup (some (take KlkFunction.key d n)) = Function.update (lookup (some d)) n none := by
  funext m
  show locate KlkFunction.key (take KlkFunction.key d n) m = _
  rw [locate_take h, Function.update_apply]
  rfl

/-- **A document that is written over the one it comes from** changes the functions as the request says. -/
theorem step_answer {doc : Option Doc} (h : ∀ d ∈ doc, (names KlkFunction.key d).Nodup) {r : Request}
    (ha : answer nfkd seed doc r = .ok (d', reply)) (hload : r = .load → loadExisting doc = none) :
    Registry.Step (lookup (seed.map seedCopy)) (lookup doc) (r, reply) (lookup (some d')) := by
  cases r with
  | toggle n active =>
      rw [answer] at ha
      obtain ⟨d, ⟨k, f⟩, rfl, hq, rfl, rfl⟩ := toggleFunction_ok ha
      rw [lookup_change (h d rfl) hq (fun f => { f with active := some active }) fun f => rfl]
      exact .toggle active hq
  | create displayName nature definition active =>
      rw [answer] at ha
      obtain ⟨d, n, rfl, hn, hnew, rfl, rfl⟩ := createFunction_ok ha
      rw [lookup_put (h d rfl) (key_eq_some_iff.mpr ⟨rfl, ne_empty_of_isCustomName hn⟩) hnew]
      exact .create displayName definition active hn (lookup_eq_none_iff.mpr hnew) rfl
  | update name c =>
      rw [answer] at ha
      obtain ⟨d, k, f, rfl, hn, hq, rfl, rfl⟩ := updateFunction_ok ha
      have hstep : Registry.Step (lookup (seed.map seedCopy)) (lookup (some d)) _ _ := .update c hn hq
      by_cases hk : c.natureOr k = k
      · rw [if_pos hk, lookup_change (h d rfl) hq c.apply fun f => rfl]
        rwa [hk] at hstep ⊢
      · rw [if_neg hk, lookup_put (nodup_take (h d rfl)) ((c.key_apply f).trans (isNamed_of_locate hq))
          (not_mem_names_take (h d rfl)), lookup_take (h d rfl), Function.update_idem]
        exact hstep
  | delete name =>
      rw [answer] at ha
      obtain ⟨d, ⟨k, f⟩, rfl, hn, hq, rfl, rfl⟩ := deleteFunction_ok ha
      rw [lookup_take (h d rfl)]
      exact .delete hn hq
  | load =>
      obtain ⟨s, rfl, rfl, rfl⟩ := loadSeed_ok ha
      exact .seed _ _ (lookup_of_not_loaded (hload rfl))

/-- Names stay distinct when a document is written over the one it comes from. -/
theorem distinct_answer {doc : Option Doc} (h : ∀ d ∈ doc, (names KlkFunction.key d).Nodup)
    (hseed : ∀ s ∈ seed, (names KlkFunction.key (seedCopy s)).Nodup) {r : Request}
    (ha : answer nfkd seed doc r = .ok (d', reply)) : (names KlkFunction.key d').Nodup := by
  by_cases hr : r = .load
  · rw [hr] at ha
    obtain ⟨s, hs, rfl, -⟩ := loadSeed_ok ha
    exact hseed s hs
  · cases doc with
    | none =>
        refine (intact_answer (S := fun _ => []) (fun _ hd => ?_) (fun h => absurd h hr) ha).distinct
        cases hd
    | some d =>
        refine (intact_answer (S := stock d) (fun d₁ hd₁ => ?_) (fun h => absurd h hr) ha).distinct
        cases hd₁
        exact ⟨h d rfl, fun _ => rfl⟩

/-- The functions are what the requests answered so far have made of them. -/
structure Follows (nfkd : String → String) (seed : Option Seed) (doc : Option Doc) (p : Pool Store Pc) : Prop where
  distinct : ∀ d ∈ p.shared.doc, (names KlkFunction.key d).Nodup
  sourced : ∀ pc ∈ p.threads, Sourced nfkd seed pc
  run : Registry.Run (lookup (seed.map seedCopy)) (lookup doc) p.shared.answered (lookup p.shared.doc)

theorem follows_step (hseed : ∀ s ∈ seed, (names KlkFunction.key (seedCopy s)).Nodup) {doc : Option Doc}
    {p q : Pool Store Pc} {i : ℕ} (hp : Follows nfkd seed doc p) (hg : FindsWhatItRead p i)
    (h : p.stepAt (next nfkd seed) i = some q) : Follows nfkd seed doc q := by
  obtain ⟨pc, s', pc', hpc, hn, rfl⟩ := stepAt_eq_some h
  have hsource := hp.sourced pc (List.mem_of_getElem? hpc)
  have hm := moves_of_next hsource hn
  have hcalls : ∀ x ∈ p.threads.set i pc', Sourced nfkd seed x := by
    intro x hx
    rcases mem_set_cases hx with rfl | ⟨j, -, hj⟩
    · exact hm.sourced hsource
    · exact hp.sourced x (List.mem_of_getElem? hj)
  cases hm with
  | finds hr hf => exact ⟨hp.distinct, hcalls, hp.run.snoc (.cached _)⟩
  | reads hr hl =>
      refine ⟨hp.distinct, hcalls, hp.run.snoc ?_⟩
      cases hd : p.shared.doc with
      | none =>
          rw [hd] at hl
          cases hl
      | some d =>
          rw [hd] at hl
          exact step_load (hp.distinct d hd) hl _
  | refuses => exact ⟨hp.distinct, hcalls, hp.run⟩
  | seeds hr hl => exact ⟨hp.distinct, hcalls, hp.run⟩
  | holds hread ha => exact ⟨hp.distinct, hcalls, hp.run⟩
  | @writes c read d reply hw =>
      have hread : p.shared.doc = read := by
        unfold FindsWhatItRead at hg
        rw [hpc] at hg
        exact hg hw
      subst hread
      refine ⟨fun d₁ hd₁ => ?_, hcalls, hp.run.snoc (step_answer hp.distinct hsource.1 hsource.2)⟩
      cases hd₁
      exact distinct_answer hp.distinct hseed hsource.1

/-- **Without overwriting, the document is a map from names to functions**: in every interleaving in which each write
finds the document as its call has read it, the requests answered, in the order of their reads and writes, do to the
functions what they do to the map, and the document has the functions of the map. -/
theorem registry_follows (hseed : ∀ s ∈ seed, (names KlkFunction.key (seedCopy s)).Nodup) {doc : Option Doc}
    (hdoc : ∀ d ∈ doc, (names KlkFunction.key d).Nodup) (calls : List Call) {sched : List ℕ} {q : Pool Store Pc}
    (hg : Guarded (next nfkd seed) FindsWhatItRead (opening doc calls) sched)
    (hrun : exec (next nfkd seed) (opening doc calls) sched = some q) :
    Registry.Run (lookup (seed.map seedCopy)) (lookup doc) q.shared.answered (lookup q.shared.doc) := by
  refine (exec_invariant (Follows nfkd seed doc) (fun p i q hp hg h => follows_step hseed hp hg h) sched _ q ?_ hg
    hrun).run
  exact ⟨hdoc, fun pc hpc => sourced_start hpc, .nil _⟩

end Registry

/-- A first load, a function made, moved to another nature and renamed, read and deleted; in between a load finds what
was kept before. -/
def oneByOne : List Call :=
  [⟨.load, false, false, none, none⟩, ⟨.create "Petty cash" "ASSET" "" true, false, false, none, none⟩,
    ⟨.update "custom_petty_cash" ⟨some "Till", none, some "LIABILITY", none⟩, false, false, none, none⟩,
    ⟨.load, false, false, none, none⟩, ⟨.delete "custom_petty_cash", false, false, none, none⟩,
    ⟨.load, false, false, none, some (.functions [] [])⟩]

theorem registry_follows_one_by_one :
    ∃ q, exec (next id (some smallSeed)) (opening none oneByOne) [0, 0, 0, 1, 1, 5, 2, 2, 3, 4, 4] = some q ∧
      q.shared.answered.length = 6 ∧
      Registry.Run (lookup (some (seedCopy smallSeed))) (lookup none) q.shared.answered (lookup q.shared.doc) := by
  have hrun : (exec (next id (some smallSeed)) (opening none oneByOne) [0, 0, 0, 1, 1, 5, 2, 2, 3, 4, 4]).isSome =
      true := by decide +kernel
  have hseed : ∀ s ∈ some smallSeed, (names KlkFunction.key (seedCopy s)).Nodup := by
    intro s hs
    cases hs
    decide +kernel
  exact ⟨_, (Option.some_get hrun).symm, by decide +kernel +revert,
    registry_follows hseed (fun _ hd => absurd hd (by simp)) oneByOne (by decide +kernel) (Option.some_get hrun).symm⟩

end Pinnokio.Coa
