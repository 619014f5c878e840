import Pinnokio.Coa.Functions

/-!
# The stock functions are never lost

Calls on the functions of a company that overlap write over each other, and a read that fails is taken for a document
that is not there, which is then made anew from the seed.  What gets lost that way are custom functions and switches;
names stay distinct, and the stock functions of the seed stay where they are.

* `Intact` — distinct names, and the stock functions;
* `intact_answer` — what one call makes of a document that is intact;
* `Moves` — what one step of a call can be;
* `functions_intact` — every interleaving.
-/

namespace Pinnokio.Coa

open Pinnokio.Filing Pinnokio.Interleaving Pinnokio.Text

/-! ### The stock functions -/

/-- A function apart from whether it is active. -/
def KlkFunction.inert (f : KlkFunction) : KlkFunction := { f with active := none }

/-- The functions of a nature that are not custom, apart from whether they are active. -/
def stock (d : Doc) (nature : String) : List KlkFunction :=
  ((itemsAt d nature).filter fun f => !f.isCustom).map KlkFunction.inert

/-- No name is there twice, and the stock functions are the given ones. -/
structure Intact (S : String → List KlkFunction) (d : Doc) : Prop where
  distinct : (names KlkFunction.key d).Nodup
  stock_eq : ∀ k, stock d k = S k

section

variable {d : Doc}

/-- A change that keeps the name, and of a stock function everything but whether it is active. -/
theorem stock_change (h : (names KlkFunction.key d).Nodup) {n : String} {g : KlkFunction → KlkFunction}
    (hname : ∀ f, (g f).name = f.name) (hstock : isCustomName n = false → ∀ f, (g f).inert = f.inert) (k : String) :
    stock (change KlkFunction.key d n g) k = stock d k := by
  have hcustom : ∀ f : KlkFunction, (if f.key = some n then g f else f).isCustom = f.isCustom := by
    intro f
    split
    · rw [KlkFunction.isCustom, KlkFunction.isCustom, key_congr (hname f)]
    · rfl
  rw [stock, stock, itemsAt_change h, List.filter_map, List.map_map]
  have hfilter : (itemsAt d k).filter
      ((fun f : KlkFunction => !f.isCustom) ∘ fun f => if f.key = some n then g f else f) =
      (itemsAt d k).filter fun f => !f.isCustom := by
    refine List.filter_congr fun f _ => ?_
    show (!(if f.key = some n then g f else f).isCustom) = !f.isCustom
    rw [hcustom]
  rw [hfilter]
  refine List.map_congr_left fun f hf => ?_
  show (if f.key = some n then g f else f).inert = f.inert
  split
  · rename_i hkey
    have hno := (List.mem_filter.mp hf).2
    rw [isCustom_of_key hkey, Bool.not_eq_true'] at hno
    exact hstock hno f
  · rfl

theorem stock_take (h : (names KlkFunction.key d).Nodup) {n : String} (hn : isCustomName n = true) (k : String) :
    stock (take KlkFunction.key d n) k = stock d k := by
  rw [stock, stock, itemsAt_take h, List.filter_filter]
  congr 1
  refine List.filter_congr fun f _ => ?_
  by_cases hkey : isNamed KlkFunction.key n f = true
  · rw [isCustom_of_key (isNamed_iff.mp hkey), hn]
    rfl
  · rw [Bool.not_eq_true] at hkey
    rw [hkey]
    simp

theorem stock_put {f : KlkFunction} (hf : f.isCustom = true) (nature : String) (label : Option String) (k : String) :
    stock (put d nature label f) k = stock d k := by
  rw [stock, stock, itemsAt_put]
  split
  · rename_i hk
    rw [List.filter_append, hk]
    simp [hf]
  · rfl

end

/-! ### Every call keeps the document intact -/

section Steps

variable {S : String → List KlkFunction} {d d' : Doc} {reply : Reply} {nfkd : String → String}

theorem Changes.key_apply (c : Changes) (f : KlkFunction) : (c.apply f).key = f.key := key_congr rfl

theorem intact_toggle (h : Intact S d) (n : String) (active : Bool) :
    Intact S (change KlkFunction.key d n fun f => { f with active := some active }) := by
  constructor
  · exact nodup_change h.distinct fun f hf => (key_congr rfl).trans hf
  · intro k
    refine (stock_change h.distinct ?_ ?_ k).trans (h.stock_eq k)
    · exact fun f => rfl
    · exact fun _ f => rfl

/-- A custom function with a new name. -/
theorem intact_put (h : Intact S d) {f : KlkFunction} {n : String} (hkey : f.key = some n) (hn : isCustomName n = true)
    (hnew : n ∉ names KlkFunction.key d) (nature : String) (label : Option String) :
    Intact S (put d nature label f) := by
  constructor
  · refine nodup_put h.distinct fun m hm => ?_
    rw [hkey] at hm
    cases hm
    exact hnew
  · intro k
    rw [stock_put ((isCustom_of_key hkey).trans hn)]
    exact h.stock_eq k

theorem intact_take (h : Intact S d) {n : String} (hn : isCustomName n = true) :
    Intact S (take KlkFunction.key d n) := by
  constructor
  · exact nodup_take h.distinct
  · intro k
    rw [stock_take h.distinct hn]
    exact h.stock_eq k

theorem intact_update (h : Intact S d) {n : String} (hn : isCustomName n = true) {k : String} {f : KlkFunction}
    (hq : locate KlkFunction.key d n = some (k, f)) (c : Changes) (nature : String) (label : Option String) :
    Intact S (if nature = k then change KlkFunction.key d n c.apply
      else put (take KlkFunction.key d n) nature label (c.apply f)) := by
  split
  · constructor
    · exact nodup_change h.distinct fun f hf => (c.key_apply f).trans hf
    · intro k
      refine (stock_change h.distinct ?_ ?_ k).trans (h.stock_eq k)
      · exact fun f => rfl
      · exact fun hno => absurd (hn.symm.trans hno) (by decide)
  · refine intact_put (intact_take h hn) ((c.key_apply f).trans (isNamed_of_locate hq)) hn ?_ nature label
    exact not_mem_names_take h.distinct

/-- **What a call makes of a document that is intact is intact.** -/
theorem intact_answer {seed : Option Seed} {doc : Option Doc} (h : ∀ d ∈ doc, Intact S d) {r : Request}
    (hseed : r = .load → ∀ s ∈ seed, Intact S (seedCopy s)) (ha : answer nfkd seed doc r = .ok (d', reply)) :
    Intact S d' := by
  cases r with
  | toggle n active =>
      rw [answer] at ha
      obtain ⟨d, q, rfl, -, rfl, -⟩ := toggleFunction_ok ha
      exact intact_toggle (h d rfl) n active
  | create displayName nature definition active =>
      rw [answer] at ha
      obtain ⟨d, n, rfl, hn, hnew, rfl, -⟩ := createFunction_ok ha
      exact intact_put (h d rfl) (key_eq_some_iff.mpr ⟨rfl, ne_empty_of_isCustomName hn⟩) hn hnew _ _
  | update name c =>
      rw [answer] at ha
      obtain ⟨d, k, f, rfl, hn, hq, rfl, -⟩ := updateFunction_ok ha
      exact intact_update (h d rfl) hn hq c _ _
  | delete name =>
      rw [answer] at ha
      obtain ⟨d, q, rfl, hn, -, rfl, -⟩ := deleteFunction_ok ha
      exact intact_take (h d rfl) hn
  | load =>
      obtain ⟨s, hs, rfl, -⟩ := loadSeed_ok ha
      exact hseed rfl s hs

end Steps

/-! ### Every interleaving keeps the document intact -/

section Runs

variable {nfkd : String → String} {seed : Option Seed} {s s' : Store} {pc pc' : Pc}

/-- What a call holds comes from what it has read. -/
def Sourced (nfkd : String → String) (seed : Option Seed) : Pc → Prop
  | .seeding c read => c.request = .load ∧ loadExisting read = none
  | .writing c read d reply =>
      answer nfkd seed read c.request = .ok (d, reply) ∧ (c.request = .load → loadExisting read = none)
  | _ => True

/-- The kinds of steps: a call that only answers, one that comes to hold a document, and one that writes it. -/
inductive Moves (nfkd : String → String) (seed : Option Seed) : Store → Pc → Store → Pc → Prop
  | finds {s : Store} {c : Call} {kept : Result} (hr : c.request = .load) (hf : c.found = some kept) :
      Moves nfkd seed s (.start c) { s with answered := s.answered ++ [(.load, .cached kept)] }
        (.done (.ok (.cached kept)))
  | reads {s : Store} {c : Call} {reply : Reply} (hr : c.request = .load) (hl : loadExisting s.doc = some reply) :
      Moves nfkd seed s (.start c) { s with answered := s.answered ++ [(.load, reply)] } (.done (.ok reply))
  | refuses {s : Store} {pc : Pc} {e : Failure} : Moves nfkd seed s pc s (.done (.error e))
  | seeds {s : Store} {c : Call} {read : Option Doc} (hr : c.request = .load) (hl : loadExisting read = none) :
      Moves nfkd seed s (.start c) s (.seeding c read)
  | holds {s : Store} {c : Call} {read : Option Doc} {d : Doc} {reply : Reply} {pc : Pc}
      (hread : c.request = .load ∧ pc = .seeding c read ∨ c.request ≠ .load ∧ (read = none ∨ read = s.doc))
      (ha : answer nfkd seed read c.request = .ok (d, reply)) :
      Moves nfkd seed s pc s (.writing c read d reply)
  | writes {s : Store} {c : Call} {read : Option Doc} {d : Doc} {reply : Reply} (hw : c.writeFails = none) :
      Moves nfkd seed s (.writing c read d reply) ⟨some d, s.answered ++ [(c.request, reply)]⟩ (.done (.ok reply))

theorem loadExisting_none : loadExisting none = none := rfl

/-- The first step of a call that changes the document. -/
theorem moves_start {c : Call} (hr : c.request ≠ .load)
    (h : next nfkd seed s (.start c) = some (s', pc')) : Moves nfkd seed s (.start c) s' pc' := by
  obtain ⟨r, readFails, seedFails, writeFails, found⟩ := c
  have hread : (if readFails then none else s.doc) = none ∨ (if readFails then none else s.doc) = s.doc := by
    cases readFails
    · exact Or.inr rfl
    · exact Or.inl rfl
  cases ha : answer nfkd seed (if readFails then none else s.doc) r with
  | error e =>
      have hnext : next nfkd seed s (.start ⟨r, readFails, seedFails, writeFails, found⟩) =
          some (s, .done (.error e)) := by
        cases r with
        | load => exact absurd rfl hr
        | toggle n active => simp only [next, ha]
        | create displayName nature definition active => simp only [next, ha]
        | update name c => simp only [next, ha]
        | delete name => simp only [next, ha]
      rw [hnext] at h
      cases h
      exact .refuses
  | ok p =>
      have hnext : next nfkd seed s (.start ⟨r, readFails, seedFails, writeFails, found⟩) = some (s, .writing
          ⟨r, readFails, seedFails, writeFails, found⟩ (if readFails then none else s.doc) p.1 p.2) := by
        cases r with
        | load => exact absurd rfl hr
        | toggle n active => simp only [next, ha]
        | create displayName nature definition active => simp only [next, ha]
        | update name c => simp only [next, ha]
        | delete name => simp only [next, ha]
      rw [hnext] at h
      cases h
      exact .holds (Or.inr ⟨hr, hread⟩) ha

/-- What one step can be. -/
theorem moves_of_next (hpc : Sourced nfkd seed pc) (h : next nfkd seed s pc = some (s', pc')) :
    Moves nfkd seed s pc s' pc' := by
  cases pc with
  | start c =>
      by_cases hr : c.request = .load
      · obtain ⟨r, readFails, seedFails, writeFails, found⟩ := c
        cases hr
        cases found with
        | some kept =>
            cases h
            exact .finds rfl rfl
        | none =>
            cases hl : loadExisting (if readFails then none else s.doc) with
            | none =>
                simp only [next, Option.map_none, Option.none_or, hl] at h
                cases h
                exact .seeds rfl hl
            | some reply =>
                simp only [next, Option.map_none, Option.none_or, hl] at h
                cases h
                refine .reads rfl ?_
                cases readFails
                · exact hl
                · exact absurd hl (by simp [loadExisting_none])
      · exact moves_start hr h
  | seeding c read =>
      simp only [next] at h
      cases hl : loadSeed (if c.seedFails then none else seed) with
      | error e =>
          rw [hl] at h
          cases h
          exact .refuses
      | ok p =>
          rw [hl] at h
          cases h
          refine .holds (Or.inl ⟨hpc.1, rfl⟩) ?_
          rw [hpc.1]
          show loadSeed seed = .ok (p.1, p.2)
          cases hf : c.seedFails
          · rw [hf] at hl
            exact hl
          · rw [hf] at hl
            cases hl
  | writing c read d reply =>
      cases hw : c.writeFails with
      | none =>
          simp only [next, hw] at h
          cases h
          exact .writes hw
      | some e =>
          simp only [next, hw] at h
          cases h
          exact .refuses
  | done r => cases h

/-- What a call holds after a step comes from what it has read. -/
theorem Moves.sourced (hm : Moves nfkd seed s pc s' pc') (hpc : Sourced nfkd seed pc) : Sourced nfkd seed pc' := by
  cases hm with
  | finds hr hf => trivial
  | reads hr hl => trivial
  | refuses => trivial
  | seeds hr hl => exact ⟨hr, hl⟩
  | holds hread ha =>
      refine ⟨ha, fun hr => ?_⟩
      rcases hread with ⟨-, rfl⟩ | ⟨hne, -⟩
      · exact hpc.2
      · exact absurd hr hne
  | writes hw => trivial

theorem sourced_start {calls : List Call} (hpc : pc ∈ calls.map Pc.start) : Sourced nfkd seed pc := by
  obtain ⟨c, -, rfl⟩ := List.mem_map.mp hpc
  exact trivial

variable {S : String → List KlkFunction}

/-- What a call is about to write is intact. -/
def HoldsIntact (S : String → List KlkFunction) : Pc → Prop
  | .writing _ _ d _ => Intact S d
  | _ => True

/-- The document is intact, and so is every document that is still to be written. -/
structure Safe (S : String → List KlkFunction) (nfkd : String → String) (seed : Option Seed) (p : Pool Store Pc) :
    Prop where
  doc : ∀ d ∈ p.shared.doc, Intact S d
  calls : ∀ pc ∈ p.threads, Sourced nfkd seed pc ∧ HoldsIntact S pc

theorem Moves.safe (hseed : ∀ s ∈ seed, Intact S (seedCopy s)) (hm : Moves nfkd seed s pc s' pc')
    (hdoc : ∀ d ∈ s.doc, Intact S d) (hpc : HoldsIntact S pc) :
    (∀ d ∈ s'.doc, Intact S d) ∧ HoldsIntact S pc' := by
  cases hm with
  | finds hr hf => exact ⟨hdoc, trivial⟩
  | reads hr hl => exact ⟨hdoc, trivial⟩
  | refuses => exact ⟨hdoc, trivial⟩
  | seeds hr hl => exact ⟨hdoc, trivial⟩
  | @holds c read d reply _ hread ha =>
      refine ⟨hdoc, ?_⟩
      show Intact S d
      rcases hread with ⟨hr, -⟩ | ⟨-, rfl | rfl⟩
      · rw [hr] at ha
        obtain ⟨s₀, hs₀, rfl, -⟩ := loadSeed_ok ha
        exact hseed s₀ hs₀
      · exact intact_answer (fun _ hd => absurd hd (by simp)) (fun _ => hseed) ha
      · exact intact_answer hdoc (fun _ => hseed) ha
  | writes hw =>
      refine ⟨fun d hd => ?_, trivial⟩
      cases hd
      exact hpc

theorem safe_step (hseed : ∀ s ∈ seed, Intact S (seedCopy s)) {p q : Pool Store Pc} {i : ℕ}
    (hp : Safe S nfkd seed p) (h : p.stepAt (next nfkd seed) i = some q) : Safe S nfkd seed q := by
  obtain ⟨pc, s', pc', hpc, hn, rfl⟩ := stepAt_eq_some h
  have hmem := hp.calls pc (List.mem_of_getElem? hpc)
  have hm := moves_of_next hmem.1 hn
  obtain ⟨hdoc, hheld⟩ := hm.safe hseed hp.doc hmem.2
  refine ⟨hdoc, fun x hx => ?_⟩
  rcases mem_set_cases hx with rfl | ⟨j, -, hj⟩
  · exact ⟨hm.sourced hmem.1, hheld⟩
  · exact hp.calls x (List.mem_of_getElem? hj)

/-- **Whatever is overwritten, no name is there twice and no stock function is lost**: in every interleaving of calls,
with reads and writes that fail, the document keeps distinct names and the stock functions of the seed, each in its
nature. -/
theorem functions_intact (hseed : ∀ s ∈ seed, Intact S (seedCopy s)) {doc : Option Doc} (hdoc : ∀ d ∈ doc, Intact S d)
    (calls : List Call) {sched : List ℕ} {q : Pool Store Pc}
    (hrun : exec (next nfkd seed) (opening doc calls) sched = some q) : ∀ d ∈ q.shared.doc, Intact S d := by
  refine (exec_induction (Safe S nfkd seed) (fun p i q hp h => safe_step hseed hp h) sched _ q ?_ hrun).doc
  refine ⟨hdoc, fun pc hpc => ⟨sourced_start hpc, ?_⟩⟩
  obtain ⟨c, -, rfl⟩ := List.mem_map.mp hpc
  exact trivial

end Runs

/-- A seed with one function in a list and one in a dictionary. -/
def smallSeed : Seed :=
  [("ASSET", ⟨some "Assets", .list [⟨some "bank", some "Bank", none, none, none⟩]⟩),
    ("PROFIT_AND_LOSS", ⟨none, .dict [("sales", ⟨none, none, some "What is sold", some true, none⟩)]⟩)]

/-- A first load, two functions with one display name made side by side, and the bank switched off. -/
def sideBySide : List Call :=
  [⟨.load, false, false, none, none⟩, ⟨.create "Petty cash" "ASSET" "" true, false, false, none, none⟩,
    ⟨.create "Petty cash" "LIABILITY" "" true, false, false, none, none⟩,
    ⟨.toggle "bank" false, false, false, none, none⟩]

/-- The second of the two functions overwrites the first. -/
theorem functions_intact_side_by_side :
    ∃ q, exec (next id (some smallSeed)) (opening none sideBySide) [0, 0, 0, 1, 2, 1, 2, 3, 3] = some q ∧
      ∀ d ∈ q.shared.doc, Intact (stock (seedCopy smallSeed)) d := by
  have hrun : (exec (next id (some smallSeed)) (opening none sideBySide) [0, 0, 0, 1, 2, 1, 2, 3, 3]).isSome =
      true := by decide +kernel
  have hseed : ∀ s ∈ some smallSeed, Intact (stock (seedCopy smallSeed)) (seedCopy s) := by
    intro s hs
    cases hs
    exact ⟨by decide +kernel, fun k => rfl⟩
  exact ⟨_, (Option.some_get hrun).symm,
    functions_intact hseed (fun _ hd => absurd hd (by simp)) sideBySide (Option.some_get hrun).symm⟩

end Pinnokio.Coa
