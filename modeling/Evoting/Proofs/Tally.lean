/-
Tallying the database counts every ballot once.

A line of the database is the decimal of a message, a `;`, and text without a line
end, so the scanner loop reads exactly one message from each line
(`tallyFile_lines`), and the total is the product of the messages modulo
`nSquared`.  `Casts` is a run of ballots, each signed and at once added; over it
the file is the lines of the messages in order (`casts_run`), and the tally decrypts
to the sum of the decryptions.

So an election under a key that the builder has made, with votes that were encrypted
under it, counts the votes (`generated_election_counts`).
-/
import Evoting.Model.Election
import Evoting.Proofs.KeyGen

namespace Evoting

open Election

/-! ### Lines -/

/-- Text without a line end. -/
def OnOneLine (s : JString) : Prop := ∀ c ∈ s, Scanner.isLineEnd c = false

instance (s : JString) : Decidable (OnOneLine s) := List.decidableBAll _ s

theorem onOneLine_append {s t : JString} (hs : OnOneLine s) (ht : OnOneLine t) :
    OnOneLine (s ++ t) := by
  intro c hc
  rcases List.mem_append.mp hc with h | h
  · exact hs c h
  · exact ht c h

theorem onOneLine_render (i : Int) : OnOneLine (BigInteger.toText i) := by
  intro c hc
  rcases Decimal.isDecimal_of_mem_render hc with hdigit | rfl
  · have hrange := Char.isDigit_iff_toNat.mp hdigit
    rw [show '0'.toNat = 48 from rfl, show '9'.toNat = 57 from rfl] at hrange
    rw [Scanner.isLineEnd, decide_eq_false_iff_not]
    rintro (rfl | rfl | rfl | rfl | rfl) <;> exact absurd hrange (by decide)
  · decide

theorem onOneLine_flatMap {α : Type} {l : List α} {f : α → JString}
    (h : ∀ a ∈ l, OnOneLine (f a)) : OnOneLine (l.flatMap f) := by
  intro c hc
  obtain ⟨a, ha, hca⟩ := List.mem_flatMap.mp hc
  exact h a ha c hca

theorem onOneLine_intercalate {sep : JString} (hsep : OnOneLine sep) {items : List JString}
    (h : ∀ s ∈ items, OnOneLine s) : OnOneLine (sep.intercalate items) := by
  induction items with
  | nil => simp [OnOneLine, List.intercalate]
  | cons s items ih =>
      cases items with
      | nil => simpa [List.intercalate] using h s (by simp)
      | cons t items =>
          have hsplit : sep.intercalate (s :: t :: items)
              = s ++ (sep ++ sep.intercalate (t :: items)) := by simp [List.intercalate]
          rw [hsplit]
          exact onOneLine_append (h s (by simp))
            (onOneLine_append hsep (ih fun u hu => h u (by simp [hu])))

theorem onOneLine_listText {items : List JString} (h : ∀ s ∈ items, OnOneLine s) :
    OnOneLine (PaillierRingParameters.listText items) :=
  onOneLine_append (onOneLine_append (by decide) (onOneLine_intercalate (by decide) h)) (by decide)

theorem onOneLine_toText (pk : PaillierPublicKey) : OnOneLine pk.toText := by
  have hsep : OnOneLine ";".toList := by decide
  simp only [PaillierPublicKey.toText]
  refine onOneLine_append (onOneLine_append (onOneLine_append (onOneLine_append (onOneLine_append
    (onOneLine_append ?_ hsep) ?_) hsep) ?_) hsep) ?_ <;> exact onOneLine_render _

/-- A ballot is the decimal of its message, a `;`, and text on the same line. -/
theorem ballotText_eq (message : Int) (keys : List PaillierPublicKey) (v : Int) (x : List Int)
    (random_seed : Int) : ∃ rest, OnOneLine rest ∧
      PaillierRingParameters.ballotText message keys v x random_seed
        = BigInteger.toText message ++ ';' :: rest := by
  have hsep : OnOneLine ";".toList := by decide
  have hkey : ∀ key : PaillierPublicKey, OnOneLine ("[".toList ++ BigInteger.toText key.n
      ++ ", ".toList ++ BigInteger.toText key.g ++ "],".toList) := fun key =>
    onOneLine_append (onOneLine_append (onOneLine_append (onOneLine_append (by decide)
      (onOneLine_render _)) (by decide)) (onOneLine_render _)) (by decide)
  have hkeys := onOneLine_flatMap (l := keys) fun key _ => hkey key
  have hlist : OnOneLine (PaillierRingParameters.listText (keys.map PaillierPublicKey.toText)) :=
    onOneLine_listText (by simpa using fun key _ => onOneLine_toText key)
  have hx : OnOneLine (PaillierRingParameters.listText (x.map BigInteger.toText)) :=
    onOneLine_listText (by simpa using fun a _ => onOneLine_render a)
  refine ⟨_, onOneLine_append hkeys (onOneLine_append hlist (onOneLine_append hsep
    (onOneLine_append (onOneLine_render v) (onOneLine_append hsep (onOneLine_append hx
      (onOneLine_append hsep (onOneLine_render random_seed))))))), ?_⟩
  simp [PaillierRingParameters.ballotText]

/-! ### The scanner loop -/

/-- A file with one line for each of these messages. -/
inductive Lines : List Int → JString → Prop where
  | nil : Lines [] []
  | cons {message : Int} {messages : List Int} {rest file : JString} (hrest : OnOneLine rest)
      (hfile : Lines messages file) :
      Lines (message :: messages) (BigInteger.toText message ++ ';' :: rest ++ '\n' :: file)

/-- The field and the line end of one line. -/
theorem next_line {message : Int} {rest file : JString} :
    Scanner.next DELIMITER (BigInteger.toText message ++ ';' :: rest ++ '\n' :: file)
      = .ok (BigInteger.toText message, ';' :: rest ++ '\n' :: file) := by
  rw [List.append_assoc, List.cons_append]
  exact Scanner.next_append (Decimal.render_ne_nil _)
    (Decimal.not_mem_render (by simp [Decimal.IsDecimal, DELIMITER]))

theorem nextLine_line {rest file : JString} (hrest : OnOneLine rest) :
    Scanner.nextLine (';' :: rest ++ '\n' :: file) = .ok (';' :: rest, file) :=
  Scanner.nextLine_append (List.forall_mem_cons.mpr ⟨by decide, hrest⟩)

/-- One line is one message. -/
theorem tallyLoop_line {w : World} {total message : Int} {rest file : JString}
    (hrest : OnOneLine rest) :
    tallyLoop w total (BigInteger.toText message ++ ';' :: rest ++ '\n' :: file)
      = homomorphicAdd w total message >>= fun total => tallyLoop w total file := by
  have hstep : tallyStep w total (BigInteger.toText message ++ ';' :: rest ++ '\n' :: file)
      = homomorphicAdd w total message >>= fun total => .ok (total, file) := by
    simp only [tallyStep, next_line, nextLine_line hrest, BigInteger.ofText_toText, ok_bind,
      pure_eq_ok]
  rw [tallyLoop, if_neg (by simp [Scanner.hasNextLine]), hstep]
  cases homomorphicAdd w total message <;> rfl

theorem tallyLoop_nil (w : World) (total : Int) : tallyLoop w total [] = .ok total := by
  rw [tallyLoop, if_pos (by rfl)]

theorem tallyLoop_lines {w : World} {messages : List Int} {file : JString}
    (h : Lines messages file) (total : Int) :
    tallyLoop w total file = messages.foldlM (homomorphicAdd w) total := by
  induction h generalizing total with
  | nil => exact tallyLoop_nil w total
  | cons hrest _ ih =>
      rw [tallyLoop_line hrest, List.foldlM_cons]
      simp only [ih]

/-- **The tally of a file** multiplies the messages of its lines. -/
theorem tallyFile_lines {w : World} {message : Int} {messages : List Int} {file : JString}
    (h : Lines (message :: messages) file) :
    tallyFile w file = messages.foldlM (homomorphicAdd w) message := by
  cases h with
  | cons hrest hfile =>
      simp only [tallyFile, next_line, nextLine_line hrest, BigInteger.ofText_toText, ok_bind,
        tallyLoop_lines hfile]

/-- **The total** is the product of the messages, modulo `nSquared`. -/
theorem foldlM_homomorphicAdd {w : World} {k : KeyPair} (hkey : w.electionKeyPair = some k)
    (hpos : 0 < k.publicKey.nSquared) (messages : List Int) (total : Int) :
    ∃ t, messages.foldlM (homomorphicAdd w) total = .ok t ∧
      t ≡ total * messages.prod [ZMOD k.publicKey.nSquared] := by
  induction messages generalizing total with
  | nil => exact ⟨total, rfl, by simp⟩
  | cons message messages ih =>
      obtain ⟨t, ht, hmod⟩ := ih (total * message % k.publicKey.nSquared)
      refine ⟨t, ?_, ?_⟩
      · rw [List.foldlM_cons, homomorphicAdd, hkey, deref, ok_bind, BigInteger.mod_of_pos hpos,
          ok_bind, ht]
      · refine hmod.trans ?_
        rw [List.prod_cons, ← mul_assoc]
        exact (Int.mod_modEq _ _).mul_right _

/-! ### Ballots, signed and at once added -/

section Casts

variable (providers : Providers)

/-- A run of ballots, each signed and at once added, with what `addVoteToDatabase`
returned.  Between two ballots anything may happen that leaves the election's key pair
and its file alone; rings and ballots may be constructed. -/
inductive Casts : World → List (Int × Bool) → World → Prop where
  | nil (w : World) : Casts w [] w
  | cons {w w₁ w' : World} {ring : PaillierRing} {rand : Nat → Int} {message : Int}
      {rest : List (Int × Bool)} (hkey : w₁.electionKeyPair = w.electionKeyPair)
      (hdatabase : w₁.database = w.database)
      (hsign : (ring.sign providers rand message w₁).1 = .ok ())
      (hrest : Casts (addVoteToDatabase providers (ring.sign providers rand message w₁).2).2
        rest w') :
      Casts w ((message,
        (addVoteToDatabase providers (ring.sign providers rand message w₁).2).1) :: rest) w'

variable {providers}

/-- **What `sign` leaves behind**: a ballot that verifies and carries the message, and the
election as it was. -/
theorem sign_ok {ring : PaillierRing} {rand : Nat → Int} {message : Int} {w : World}
    (h : (ring.sign providers rand message w).1 = .ok ()) :
    PaillierRingParameters.verifyRingSignature providers (ring.sign providers rand message w).2
        = true ∧
      (∃ keys v x random_seed, PaillierRingParameters.toText (ring.sign providers rand message w).2
        = .ok (PaillierRingParameters.ballotText message keys v x random_seed)) ∧
      (ring.sign providers rand message w).2.electionKeyPair = w.electionKeyPair ∧
      (ring.sign providers rand message w).2.database = w.database := by
  unfold PaillierRing.sign at h ⊢
  split at h
  · rename_i publicKeys keyPair hkeys hpair
    dsimp only at h ⊢
    split at h
    · simp at h
    · rename_i v hv
      refine ⟨?_, ⟨_, _, _, _, rfl⟩, rfl, rfl⟩
      -- the equation is solved again from the same fields
      have hsame : ∀ w : World, ∀ y u, PaillierRing.solveRingEquation providers
          (PaillierRingParameters.new message publicKeys v
            (keyPair.privateKey.lambda :: (List.range (ring.SIZE - 1).toNat).map rand)
            ring.SEED w) y u = PaillierRing.solveRingEquation providers w y u := fun _ _ _ => rfl
      rw [PaillierRingParameters.verifyRingSignature]
      simp only [PaillierRingParameters.new] at hsame ⊢
      rw [hsame, hv]
      simp
  · simp at h

/-- A signed ballot is appended as one line. -/
theorem addVoteToDatabase_sign {ring : PaillierRing} {rand : Nat → Int} {message : Int} {w : World}
    {text : JString} (h : (ring.sign providers rand message w).1 = .ok ())
    (hdatabase : w.database = some text) :
    ∃ rest, OnOneLine rest ∧
      addVoteToDatabase providers (ring.sign providers rand message w).2 = (true,
        { (ring.sign providers rand message w).2 with
          database := some (text ++ (BigInteger.toText message ++ ';' :: rest ++ ['\n'])) }) := by
  obtain ⟨hverify, ⟨keys, v, x, random_seed, htext⟩, -, hfile⟩ := sign_ok h
  obtain ⟨rest, hrest, hline⟩ := ballotText_eq message keys v x random_seed
  refine ⟨rest, hrest, ?_⟩
  rw [hdatabase] at hfile
  rw [addVoteToDatabase, if_neg (by simp [hverify])]
  simp only [hfile, reduceCtorEq, if_false, htext, hline, Option.map_some, List.append_assoc]

/-- **A run of ballots** is accepted ballot by ballot, and leaves one line for each message. -/
theorem casts_run {w w' : World} {casts : List (Int × Bool)} (h : Casts providers w casts w')
    {text : JString} (hdatabase : w.database = some text) :
    (∀ c ∈ casts, c.2 = true) ∧ w'.electionKeyPair = w.electionKeyPair ∧
      ∃ file, w'.database = some (text ++ file) ∧ Lines (casts.map Prod.fst) file := by
  induction h generalizing text with
  | nil w => exact ⟨by simp, rfl, [], by simpa using hdatabase, Lines.nil⟩
  | cons hkey hfile hsign _ ih =>
      obtain ⟨-, -, hkey', -⟩ := sign_ok hsign
      obtain ⟨rest, hrest, hadd⟩ := addVoteToDatabase_sign hsign (hfile.trans hdatabase)
      rw [hadd] at ih ⊢
      obtain ⟨hall, hsame, file, hw', hlines⟩ := ih rfl
      refine ⟨List.forall_mem_cons.mpr ⟨rfl, hall⟩, hsame.trans (hkey'.trans hkey), _, ?_,
        Lines.cons hrest hlines⟩
      simpa using hw'

end Casts

/-! ### The result -/

section Result

variable {providers : Providers} {k : KeyPair} {p q : ℕ} {w w' : World}
  {casts : List (Int × Bool)}

/-- The tally of a run is the product of its messages. -/
theorem tallyVotes_casts (hk : k.Valid p q) (hkey : w.electionKeyPair = some k)
    (hempty : w.database = some []) (hne : casts ≠ []) (h : Casts providers w casts w') :
    w'.electionKeyPair = some k ∧ ∃ total, tallyVotes w' = some total ∧
      total ≡ (casts.map Prod.fst).prod [ZMOD k.publicKey.nSquared] := by
  obtain ⟨-, hsame, file, hfile, hlines⟩ := casts_run h hempty
  have hkey' := hsame.trans hkey
  obtain ⟨c, rest, rfl⟩ := List.exists_cons_of_ne_nil hne
  obtain ⟨total, htotal, hmod⟩ := foldlM_homomorphicAdd hkey' hk.nSquared_pos
    (rest.map Prod.fst) c.1
  refine ⟨hkey', total, ?_, hmod⟩
  simp only [tallyVotes, hfile, List.nil_append, tallyFile_lines hlines, htotal]
  rfl

/-- **No ballot is lost or counted twice.** Every ballot is accepted, and the tally reveals
the sum of what the messages decrypt to. -/
theorem tally_reveals_sum (hk : k.Valid p q) (hbound : k.upperBound = none)
    (hkey : w.electionKeyPair = some k) (hempty : w.database = some []) (hne : casts ≠ [])
    (hcop : ∀ c ∈ casts, IsCoprime c.1 k.publicKey.n) (h : Casts providers w casts w') :
    (∀ c ∈ casts, c.2 = true) ∧ ∃ total plaintexts, tallyVotes w' = some total ∧
      List.Forall₂ (fun c v => k.decrypt c.1 = .ok v) casts plaintexts ∧
      revealResult w' total = .ok (plaintexts.sum % k.publicKey.n) := by
  refine ⟨(casts_run h hempty).1, ?_⟩
  obtain ⟨hkey', total, htotal, hmod⟩ := tallyVotes_casts hk hkey hempty hne h
  have hmessages : ∀ m ∈ casts.map Prod.fst, IsCoprime m k.publicKey.n := by
    intro m hm
    obtain ⟨c, hc, rfl⟩ := List.mem_map.mp hm
    exact hcop c hc
  obtain ⟨hprod, hsum⟩ := hk.plaintext_prod hmessages
  refine ⟨total, casts.map fun c => k.plaintext c.1, htotal, ?_, ?_⟩
  · rw [List.forall₂_map_right_iff]
    exact List.forall₂_same.mpr fun c hc => hk.decrypt_of_unbounded hbound (hcop c hc)
  · rw [revealResult, hkey', deref, ok_bind,
      hk.decrypt_of_unbounded hbound (hk.isCoprime_of_modEq hmod hprod), hk.plaintext_congr hmod,
      hsum, List.map_map]
    rfl

/-- The message of a ballot is a vote, encrypted with a draw that has no factor in common with
`n`. -/
def IsEncryption (pk : PaillierPublicKey) (vote message : Int) : Prop :=
  ∃ draws r, PaillierPublicKey.acceptedDraw pk.n draws = some r ∧ IsCoprime r pk.n ∧
    pk.encrypt vote draws = some (.ok message)

theorem plaintext_of_isEncryption (hk : k.Valid p q) {vote message : Int}
    (h : IsEncryption k.publicKey vote message) :
    IsCoprime message k.publicKey.n ∧ k.plaintext message = vote % k.publicKey.n := by
  obtain ⟨draws, r, hdraw, hr, hencrypt⟩ := h
  obtain ⟨c, hc, hcoprime, hplaintext⟩ := hk.encryptWith hr vote
  rw [PaillierPublicKey.encrypt, hdraw, Option.map_some, hc, Option.some.injEq,
    Except.ok.injEq] at hencrypt
  exact ⟨hencrypt ▸ hcoprime, hencrypt ▸ hplaintext⟩

/-- Encryptions decrypt to the sum of the votes. -/
theorem plaintext_prod_encryptions (hk : k.Valid p q) {votes messages : List Int}
    (h : List.Forall₂ (IsEncryption k.publicKey) votes messages) :
    IsCoprime messages.prod k.publicKey.n ∧
      k.plaintext messages.prod = votes.sum % k.publicKey.n := by
  have hall : (∀ m ∈ messages, IsCoprime m k.publicKey.n) ∧
      (messages.map k.plaintext).sum ≡ votes.sum [ZMOD k.publicKey.n] := by
    induction h with
    | nil => exact ⟨by simp, rfl⟩
    | cons hvote _ ih =>
        obtain ⟨hcoprime, hplaintext⟩ := plaintext_of_isEncryption hk hvote
        refine ⟨List.forall_mem_cons.mpr ⟨hcoprime, ih.1⟩, ?_⟩
        rw [List.map_cons, List.sum_cons, List.sum_cons, hplaintext]
        exact (Int.mod_modEq _ _).add ih.2
  obtain ⟨hprod, hsum⟩ := hk.plaintext_prod hall.1
  exact ⟨hprod, hsum.trans hall.2⟩

/-- **An election counts its votes.**  Under a key that the builder has made, of two primes and
a generator without a factor in common with them, every ballot with an encrypted vote is
accepted, and the result is the sum of the votes: the residue without an upper bound, and with
one the sum itself, where the bound allows it. -/
theorem generated_election_counts (hp : p.Prime) (hq : q.Prime) (hpq : p ≠ q) {bits : Int}
    {upperBound : Option Int} {draws : List Int}
    (hgenerated : KeyPairBuilder.generateKeyPair bits upperBound p q draws = .ok (some k))
    (hg : IsCoprime k.publicKey.g k.publicKey.n) (hkey : w.electionKeyPair = some k)
    (hempty : w.database = some []) (hne : casts ≠ []) {votes : List Int}
    (hvotes : List.Forall₂ (IsEncryption k.publicKey) votes (casts.map Prod.fst))
    (h : Casts providers w casts w') :
    (∀ c ∈ casts, c.2 = true) ∧ ∃ total, tallyVotes w' = some total ∧
      (upperBound = none → revealResult w' total = .ok (votes.sum % k.publicKey.n)) ∧
      ∀ b, upperBound = some b → 0 ≤ b → b < k.publicKey.n →
        b - k.publicKey.n < votes.sum → votes.sum ≤ b → revealResult w' total = .ok votes.sum := by
  obtain ⟨hpair, hbound⟩ := KeyPairBuilder.generateKeyPair_isPair hp hq hpq hgenerated hg
  have hk := hpair.valid
  obtain ⟨hkey', total, htotal, hmod⟩ := tallyVotes_casts hk hkey hempty hne h
  obtain ⟨hprod, hsum⟩ := plaintext_prod_encryptions hk hvotes
  have hreveal : revealResult w' total = .ok (k.withBound (votes.sum % k.publicKey.n)) := by
    rw [revealResult, hkey', deref, ok_bind, hk.decrypt_eq (hk.isCoprime_of_modEq hmod hprod),
      hk.plaintext_congr hmod, hsum]
  refine ⟨(casts_run h hempty).1, total, htotal, ?_, ?_⟩
  · intro hnone
    rw [hreveal, KeyPair.withBound, hbound, hnone]
  · intro b hb hlow hhigh hleast hmost
    rw [hreveal, KeyPair.withBound_emod (hbound.trans hb) hlow hhigh hleast hmost]

end Result

/-! ### Two ballots -/

/-- An election under the reference key with an empty file, and a ring of one. -/
def referenceElection : World :=
  (PaillierRing.new KeyPair.reference 0 1 7
    (createDatabaseFile (Election.new KeyPair.reference (World.initial fun _ => [])))).2

/-- The ring of one, with seed 7. -/
def referenceRing : PaillierRing := ⟨1, 7⟩

/-- It signs the messages 2 and 3, and both ballots are added. -/
theorem casts_reference : ∃ casts w', casts.map Prod.fst = [2, 3] ∧
    Casts .reference referenceElection casts w' := by
  have hfirst : (referenceRing.sign .reference (fun _ => 0) 2 referenceElection).1 = .ok () := by
    decide +kernel
  have hsecond : (referenceRing.sign .reference (fun _ => 0) 3 (addVoteToDatabase .reference
      (referenceRing.sign .reference (fun _ => 0) 2 referenceElection).2).2).1 = .ok () := by
    decide +kernel
  exact ⟨_, _, rfl, .cons rfl rfl hfirst (.cons rfl rfl hsecond (.nil _))⟩

theorem tally_reveals_reference : ∃ casts w' total plaintexts, casts.map Prod.fst = [2, 3] ∧
    (∀ c ∈ casts, c.2 = true) ∧ tallyVotes w' = some total ∧
    List.Forall₂ (fun c v => KeyPair.reference.decrypt c.1 = .ok v) casts plaintexts ∧
    revealResult w' total = .ok (plaintexts.sum % 35) := by
  obtain ⟨casts, w', hmessages, hcasts⟩ := casts_reference
  have hcop : ∀ c ∈ casts, IsCoprime c.1 (35 : Int) := by
    intro c hc
    have hmem : c.1 ∈ [2, 3] := hmessages ▸ List.mem_map_of_mem hc
    rw [Int.isCoprime_iff_gcd_eq_one]
    simp only [List.mem_cons, List.not_mem_nil, or_false] at hmem
    rcases hmem with h | h <;> rw [h] <;> decide
  obtain ⟨hall, total, plaintexts, htotal, hplain, hreveal⟩ :=
    tally_reveals_sum reference_valid rfl rfl rfl (by rintro rfl; simp at hmessages) hcop hcasts
  exact ⟨casts, w', total, plaintexts, hmessages, hall, htotal, hplain, hreveal⟩

/-- The reference key is made of the draw 36, and the messages 2 and 3 are votes of 1 and 17. -/
theorem generated_election_reference : ∃ casts w' total, casts.map Prod.fst = [2, 3] ∧
    (∀ c ∈ casts, c.2 = true) ∧ Casts .reference referenceElection casts w' ∧
    tallyVotes w' = some total ∧ revealResult w' total = .ok 18 := by
  obtain ⟨casts, w', hmessages, hcasts⟩ := casts_reference
  have hvotes : List.Forall₂ (IsEncryption KeyPair.reference.publicKey) [1, 17]
      (casts.map Prod.fst) := by
    rw [hmessages]
    refine .cons ⟨[18], 18, by decide, ?_, by decide⟩
      (.cons ⟨[12], 12, by decide, ?_, by decide⟩ .nil) <;>
    · rw [Int.isCoprime_iff_gcd_eq_one]
      decide
  obtain ⟨hall, total, htotal, hreveal, -⟩ :=
    generated_election_counts (p := 5) (q := 7) (by decide) (by decide) (by decide)
      (show KeyPairBuilder.generateKeyPair 6 none 5 7 [36] = .ok (some .reference) by
        decide +kernel)
      (by rw [Int.isCoprime_iff_gcd_eq_one]; decide) rfl rfl (by rintro rfl; simp at hmessages)
      hvotes hcasts
  exact ⟨casts, w', total, hmessages, hall, hcasts, htotal, hreveal rfl⟩

end Evoting
