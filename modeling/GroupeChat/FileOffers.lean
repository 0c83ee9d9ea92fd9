/-
  GroupeChat.FileOffers — whether a file goes to somebody who accepted it
  (`CmdModel::printCmdIdList` case 3, the SENDFILENAME and FILERET cases of
  `CmdModel::dealWithMessage`, `CmdModel::recvFileDecide`, `CmdModel::StartSendFile`).

  A client offers a file by name and keeps the name and whom it offered it to. The other
  user answers with a "Y" or a "N" that says nothing of the file. On a "Y" the client opens
  the file whose name it then has, and each chunk of it goes to the client that it then has;
  a file that it accepts while it sends is opened as the same `pf`. `FileOffers` is all
  clients with what the server carries between them, in any order; `accepted` is what users
  have said yes to, `opened` what `pf` reads, `sent` what has been sent and to whom.

  `consented_iff_settled`: a client is all along in states from which nothing that the
  others and its own threads do makes it send a file that its receiver did not accept,
  exactly in the runs in which
  - it offers a file only to a user who has accepted it already, or while no "Y" is on its
    way to it and any offer of its that another has not answered is the same; and if it is
    sending, only to a user who has accepted what it is sending;
  - it accepts a file only while it is not sending, or if its receiver has accepted just
    that one; and an offer of its own only if it is its last, or that one is accepted.

  Two offers, one behind the other, are enough (`the_second_offer_is_sent`).
-/

import GroupeChat.ChatClient.Mailbox
import GroupeChat.ChatClient.Transfers
import GroupeChat.Delivery

namespace GroupeChat

open Base ChatServer ChatClient

namespace FileOffers

/-! ## The two messages -/

def yes : List UInt8 := ['Y'.toUInt8]

def no : List UInt8 := ['N'.toUInt8]

def Fits (filename : List UInt8) : Prop := filename.length < UserData.filenameSize ∧ ∀ b ∈ filename, b ≠ 0

instance : DecidablePred Fits := fun l =>
  inferInstanceAs (Decidable (l.length < UserData.filenameSize ∧ ∀ b ∈ l, b ≠ 0))

theorem fits_singleton {c : UInt8} (hc : c ≠ 0) : Fits [c] :=
  ⟨Nat.one_lt_ofNat, fun _ hb => List.mem_singleton.mp hb ▸ hc⟩

/-- The server has taken `b` for another client: this is what comes. -/
def Carries (b : Buf) (cmdId : CmdId) (sender receiver : Int) (msg : List UInt8) : Prop :=
  Proto.peerId b = receiver ∧ Proto.cmdId (unframe (relayed b)) = cmdId.code ∧
    Proto.peerId (unframe (relayed b)) = sender ∧ msgText (unframe (relayed b)) = msg

/-- A message whose fields are as they should be is carried as it should be. -/
theorem carries_of_fields {b : Buf} {cmdId : CmdId} {sender receiver : Int} {msg : List UInt8} (hfits : Fits msg)
    (hcmd : Proto.cmdId b = cmdId.code) (huser : Proto.userId b = sender) (hpeer : Proto.peerId b = receiver)
    (hlen : Proto.length b = 16 + 4 + msg.length + 1)
    (hmsg : b.read msgOff (msg.length + 1) = msg ++ [0]) : Carries b cmdId sender receiver msg := by
  have hshort : msg.length < 100 := hfits.1
  have hsized : Sized b := by
    simp only [Sized, Proto.packSize]
    omega
  refine ⟨hpeer, ?_, (peerId_relayed hsized).trans huser, ?_⟩
  · have hhead := congrArg (List.take 4) (relayed_head hsized)
    rw [Mem.take_read _ _ (by decide), Mem.take_read _ _ (by decide)] at hhead
    exact (Mem.getInt_congr hhead).trans hcmd
  · have hroom : msg.length < (Mem.read (unframe (relayed b)) msgOff (Proto.packSize - msgOff)).length := by
      rw [Mem.read_length]
      simp only [Proto.packSize, msgOff]
      omega
    rw [msgText, cstr_eq_iff hfits.2 hroom, Mem.take_read _ _ (by simp only [Proto.packSize, msgOff]; omega), ← hmsg,
      Mem.read_eq_iff]
    intro i hi
    have hall := unframe_read (relayed b)
    rw [relayed_length, relayed, Mem.read_eq_iff] at hall
    have := hall (msgOff + i) (by simp only [msgOff]; omega)
    rw [Nat.zero_add] at this
    rw [relayed, this]
    exact Mem.putInt_above 4 b _ (by simp only [Proto.peerOff, msgOff]; omega)

/-- Case 3 of `printCmdIdList`. -/
theorem offer_carries (userId : Int) (junk : Buf) {filename : List UInt8} (sayToClientId : Int) (hfits : Fits filename)
    (huser : wrap 4 userId = userId) (hpeer : wrap 4 sayToClientId = sayToClientId) :
    Carries (Mailbox.draft junk (printCmdIdList userId junk (.three filename sayToClientId))) .sendFileName userId
      sayToClientId filename := by
  have hshort : filename.length < 100 := hfits.1
  have htext : msgText (((junk.strcpy msgOff filename).putInt 4 versionOff 1).putInt 4 4 userId) = filename := by
    rw [msgText, cstr_eq_iff hfits.2 (by rw [Mem.read_length]; simp only [Proto.packSize, msgOff]; omega),
      Mem.take_read _ _ (by simp only [Proto.packSize, msgOff]; omega), Mem.read_putInt_above _ _ _ _ (by decide),
      Mem.read_putInt_above _ _ _ _ (by decide), Mem.read_strcpy]
  simp only [Mailbox.draft, printCmdIdList, beginMsg, List.cons_append, List.nil_append, List.foldl_cons,
    List.foldl_nil, Stmt.apply, htext]
  refine carries_of_fields hfits ?_ ?_ ?_ ?_ ?_
  · simp only [Proto.cmdId, Mem.getInt_putInt]
    decide
  · simp (disch := decide) only [Proto.userId, Mem.getInt_putInt_ne, Mem.getInt_putInt]
    exact huser
  · simp (disch := decide) only [Proto.peerId, Mem.getInt_putInt_ne, Mem.getInt_putInt]
    exact hpeer
  · simp (disch := decide) only [Proto.length, Mem.getInt_putInt_ne, Mem.getInt_putInt]
    exact wrap_four (by omega) (by omega)
  · simp (disch := decide) only [Mem.read_putInt_above, Mem.read_strcpy]

/-- `returnYesorNo`. -/
theorem answer_carries (userId : Int) (junk : Buf) {ret : List UInt8} (toWhichId : Int) (hret : ret = yes ∨ ret = no)
    (huser : wrap 4 userId = userId) (hpeer : wrap 4 toWhichId = toWhichId) :
    Carries (Mailbox.draft junk (returnYesorNo userId junk ret toWhichId)) .fileRet userId toWhichId ret := by
  have hfits : Fits ret ∧ ret.length = 1 := by
    rcases hret with rfl | rfl
    · exact ⟨fits_singleton (by decide), rfl⟩
    · exact ⟨fits_singleton (by decide), rfl⟩
  simp only [Mailbox.draft, returnYesorNo, List.foldl_cons, List.foldl_nil, Stmt.apply]
  refine carries_of_fields hfits.1 ?_ ?_ ?_ ?_ ?_
  · simp (disch := decide) only [Proto.cmdId, Mem.getInt_putInt_ne, Mem.getInt_putInt]
    decide
  · simp (disch := decide) only [Proto.userId, Mem.getInt_putInt_ne, Mem.getInt_putInt]
    exact huser
  · simp (disch := decide) only [Proto.peerId, Mem.getInt_putInt_ne, Mem.getInt_putInt]
    exact hpeer
  · simp (disch := decide) only [Proto.length, Mem.getInt_putInt]
    rw [hfits.2]
    decide
  · simp (disch := decide) only [Mem.read_putInt_above, Mem.read_strcpy]

end FileOffers

/-! ## The clients -/

structure Grant where
  sender : Int
  receiver : Int
  filename : List UInt8
  deriving DecidableEq

structure FileOffers where
  clients : Int → Client
  /-- The name of the file that `pf` was last opened on. -/
  opened : Int → List UInt8
  /-- What the server has for somebody. -/
  net : List (Int × Buf)
  accepted : List Grant
  sent : List Grant

namespace FileOffers

inductive Ev where
  | printCmdIdList (a : Int) (junk : Buf) (filename : List UInt8) (sayToClientId : Int)
  /-- The `i`-th packet on its way is dealt with: the user types `c`, and a file that is
      opened holds `there` or `content`. -/
  | dealWithMessage (i : Nat) (c : UInt8) (junk : Buf) (there content : List UInt8)
  | dealWithUdpSendFile (a : Int) (pack : Buf)
  | startSendFile (a : Int) (junk : Buf) (now : Int)

def init (left : Int → Int × List UInt8) : FileOffers :=
  ⟨fun a => .new a (wrap 4 (left a).1) 0 (left a).2, fun _ => [], [], [], []⟩

def setClient (s : FileOffers) (a : Int) (client : Client) : FileOffers :=
  { s with clients := Function.update s.clients a client }

def fopen (s : FileOffers) (a : Int) (name : List UInt8) : FileOffers :=
  { s with opened := Function.update s.opened a name }

def post (s : FileOffers) (b : Buf) : FileOffers :=
  { s with net := s.net ++ [(Proto.peerId b, unframe (relayed b))] }

def accept (s : FileOffers) (g : Grant) : FileOffers := { s with accepted := s.accepted ++ [g] }

def offered (x : Int × Buf) : Grant := ⟨Proto.peerId x.2, x.1, msgText x.2⟩

def received (info : List UInt8) : List UInt8 := info ++ ['+'.toUInt8, '+'.toUInt8]

def recvFileDecide (s : FileOffers) (a : Int) (pack : Buf) (c : UInt8) (junk : Buf) (there : List UInt8) : FileOffers :=
  let s := s.setClient a ((s.clients a).recvFileDecide c there)
  let id := Proto.peerId pack
  if c = 'y'.toUInt8 then
    ((s.fopen a (received (msgText pack))).accept (offered (a, pack))).post
      (Mailbox.draft junk (returnYesorNo a junk yes id))
  else if c = 'n'.toUInt8 then s.post (Mailbox.draft junk (returnYesorNo a junk no id))
  else s

/-- The other cases open no file. -/
def dealWithMessage (s : FileOffers) (a : Int) (pack : Buf) (c : UInt8) (junk : Buf) (there content : List UInt8) :
    FileOffers :=
  match CmdId.ofCode (Proto.cmdId pack) with
  | some .sendFileName => s.recvFileDecide a pack c junk there
  | some .fileRet =>
    if msgText pack = yes then (s.setClient a ((s.clients a).fileRet content)).fopen a (s.clients a).filename else s
  | _ => s

/-- After a round of the send loop: what it queued was read from the open file. -/
def sentOff (s : FileOffers) (a : Int) (client : Client) : FileOffers :=
  match client.mWriteList.drop (s.clients a).mWriteList.length with
  | [] => s.setClient a client
  | pack :: _ => { s.setClient a client with sent := s.sent ++ [⟨a, Proto.udpPeerId pack, s.opened a⟩] }

/-- A run ends where a client exits, or uses a stream that is not open. -/
def step (s : FileOffers) : Ev → Option FileOffers
  | .printCmdIdList a junk filename sayToClientId =>
    if wrap 4 a = a ∧ wrap 4 sayToClientId = sayToClientId ∧ Fits filename then
      some ((s.setClient a ((s.clients a).chooseFile filename sayToClientId)).post
        (Mailbox.draft junk (ChatClient.printCmdIdList a junk (.three filename sayToClientId))))
    else none
  | .dealWithMessage i c junk there content =>
    match s.net[i]? with
    | none => none
    | some (a, pack) => some ({ s with net := s.net.eraseIdx i }.dealWithMessage a pack c junk there content)
  | .dealWithUdpSendFile a pack =>
    let client := (s.clients a).dealWithUdpSendFile pack
    if client.faulted then none else some (s.setClient a client)
  | .startSendFile a junk now =>
    match (s.clients a).startSendFile junk now with
    | none => none
    | some client => if client.faulted then none else some (s.sentOff a client)

/-- What a "Y" would open, and for whom. -/
def current (s : FileOffers) (a : Int) : Grant := ⟨a, (s.clients a).sendFileToClientId, (s.clients a).filename⟩

/-- What is open, and whom its chunks go to. -/
def live (s : FileOffers) (a : Int) : Grant := ⟨a, (s.clients a).sendFileToClientId, s.opened a⟩

/-- No file of `a` has gone to anybody who did not accept it, nor is one going. -/
structure Consented (a : Int) (s : FileOffers) : Prop where
  sent : ∀ g ∈ s.sent, g.sender = a → g ∈ s.accepted
  sending : (s.clients a).startTransfer = true → s.live a ∈ s.accepted

/-- The user of `a` offers a file, or accepts one. -/
def Acts (a : Int) (s : FileOffers) : Ev → Prop
  | .printCmdIdList a' _ _ _ => a' = a
  | .dealWithMessage i c _ _ _ =>
    c = 'y'.toUInt8 ∧ ∃ pack, s.net[i]? = some (a, pack) ∧ Proto.cmdId pack = CmdId.sendFileName.code
  | _ => False

/-- And none will, unless the user of `a` acts. -/
def Safe (a : Int) (s : FileOffers) : Prop :=
  ∀ fs, Along step (fun s e => ¬ Acts a s e) s fs → Always step (Consented a) s fs

def SaysYes (a : Int) (x : Int × Buf) : Prop :=
  x.1 = a ∧ Proto.cmdId x.2 = CmdId.fileRet.code ∧ msgText x.2 = yes

def Offers (a : Int) (x : Int × Buf) : Prop :=
  Proto.cmdId x.2 = CmdId.sendFileName.code ∧ Proto.peerId x.2 = a ∧ x.1 ≠ a

/-- `g` is accepted, or its client hears a "Y" only to `g`. -/
def Clear (s : FileOffers) (g : Grant) : Prop :=
  g ∈ s.accepted ∨ ∀ x ∈ s.net, ¬ SaysYes g.sender x ∧ (Offers g.sender x → offered x = g)

def Settled (a : Int) (s : FileOffers) : Ev → Prop
  | .printCmdIdList a' _ filename sayToClientId => a' = a →
    s.Clear ⟨a, sayToClientId, filename⟩ ∧
      ((s.clients a).startTransfer = true → ⟨a, sayToClientId, s.opened a⟩ ∈ s.accepted)
  | .dealWithMessage i c _ _ _ => c = 'y'.toUInt8 → ∀ pack, s.net[i]? = some (a, pack) →
    Proto.cmdId pack = CmdId.sendFileName.code →
      (Proto.peerId pack = a → s.current a ∈ s.accepted ∨ offered (a, pack) = s.current a) ∧
        ((s.clients a).startTransfer = true →
          ⟨a, (s.clients a).sendFileToClientId, received (msgText pack)⟩ ∈ s.accepted)
  | _ => True

/-! ## What the ids are -/

theorem wrap_peerId (b : Buf) : wrap 4 (Proto.peerId b) = Proto.peerId b := wrap_wrap 4 _

structure Inv (s : FileOffers) : Prop where
  ints : ∀ a, wrap 4 (s.clients a).sendFileToClientId = (s.clients a).sendFileToClientId
  net : ∀ x ∈ s.net, wrap 4 x.1 = x.1

theorem init_inv (left : Int → Int × List UInt8) : Inv (init left) :=
  ⟨fun a => wrap_wrap 4 (left a).1, fun _ h => (by cases h)⟩

section

variable {s s' : FileOffers} {a : Int}

theorem Inv.setClient (hi : Inv s) {client : Client}
    (hint : wrap 4 client.sendFileToClientId = client.sendFileToClientId) : Inv (s.setClient a client) where
  ints := fun b => by
    by_cases hb : b = a
    · subst hb
      simpa [FileOffers.setClient] using hint
    · simpa [FileOffers.setClient, Function.update_of_ne hb] using hi.ints b
  net := hi.net

theorem Inv.post (hi : Inv s) (b : Buf) : Inv (s.post b) where
  ints := hi.ints
  net := fun x hx => by
    rcases List.mem_append.mp hx with hx | hx
    · exact hi.net x hx
    · rw [List.mem_singleton.mp hx]
      dsimp only
      exact wrap_peerId b

theorem Inv.erase (hi : Inv s) (i : Nat) : Inv { s with net := s.net.eraseIdx i } :=
  ⟨hi.ints, fun x hx => hi.net x (List.mem_of_mem_eraseIdx hx)⟩

theorem Inv.dealWithMessage (hi : Inv s) (a : Int) (pack : Buf) (c : UInt8) (junk : Buf) (there content : List UInt8) :
    Inv (s.dealWithMessage a pack c junk there content) := by
  unfold FileOffers.dealWithMessage
  split
  · have hset : Inv (s.setClient a ((s.clients a).recvFileDecide c there)) := hi.setClient (hi.ints a)
    unfold FileOffers.recvFileDecide
    dsimp only
    split
    · have hyes : Inv (((s.setClient a ((s.clients a).recvFileDecide c there)).fopen a
          (received (msgText pack))).accept (offered (a, pack))) := ⟨hset.ints, hset.net⟩
      exact hyes.post _
    · split
      · exact hset.post _
      · exact hset
  · split
    · have hset : Inv (s.setClient a ((s.clients a).fileRet content)) := hi.setClient (hi.ints a)
      exact ⟨hset.ints, hset.net⟩
    · exact hi
  · exact hi

/-- A round leaves whom the client sends to, and the name. -/
theorem round_keeps {c c' : Client} {junk : Buf} {now : Int} (h : c.startSendFile junk now = some c') :
    c'.sendFileToClientId = c.sendFileToClientId ∧ c'.filename = c.filename ∧
      (c'.startTransfer = true → c.startTransfer = true) := by
  cases Client.startSendFile_round h with
  | idle hst => exact ⟨rfl, rfl, id⟩
  | closed hst hpf => exact ⟨rfl, rfl, id⟩
  | done pf hst hpf heof => exact ⟨rfl, rfl, fun _ => hst⟩
  | sent pf count hst hpf heof hcount => exact ⟨rfl, rfl, id⟩

theorem sentOff_eq (a : Int) (client : Client) :
    ∃ gs, s.sentOff a client = { s.setClient a client with sent := s.sent ++ gs } := by
  unfold sentOff
  split
  · exact ⟨[], by simp [FileOffers.setClient]⟩
  · exact ⟨_, rfl⟩

theorem step_inv {e : Ev} (hi : Inv s) (h : s.step e = some s') : Inv s' := by
  cases e with
  | printCmdIdList a junk filename sayToClientId =>
    simp only [step] at h
    split at h
    · rename_i hints
      obtain rfl := Option.some.inj h
      have hset : Inv (s.setClient a ((s.clients a).chooseFile filename sayToClientId)) := hi.setClient hints.2.1
      exact hset.post _
    · cases h
  | dealWithMessage i c junk there content =>
    simp only [step] at h
    split at h
    · cases h
    · rename_i a pack hget
      obtain rfl := Option.some.inj h
      exact (hi.erase i).dealWithMessage a pack c junk there content
  | dealWithUdpSendFile a pack =>
    simp only [step] at h
    split at h
    · cases h
    · obtain rfl := Option.some.inj h
      exact hi.setClient (hi.ints a)
  | startSendFile a junk now =>
    simp only [step] at h
    split at h
    · cases h
    · rename_i client hround
      split at h
      · cases h
      · obtain rfl := Option.some.inj h
        obtain ⟨hpeer, -⟩ := round_keeps hround
        have hset : Inv (s.setClient a client) := hi.setClient (by rw [hpeer]; exact hi.ints a)
        obtain ⟨gs, heq⟩ := s.sentOff_eq a client
        rw [heq]
        exact ⟨hset.ints, hset.net⟩

/-! ## What a "Y" would open -/

theorem Carries.saysYes {b : Buf} {cmdId : CmdId} {sender receiver : Int} {msg : List UInt8}
    (h : Carries b cmdId sender receiver msg) (a : Int) :
    SaysYes a (Proto.peerId b, unframe (relayed b)) ↔ receiver = a ∧ cmdId = .fileRet ∧ msg = yes := by
  obtain ⟨hpeer, hcmd, -, hmsg⟩ := h
  have hcode : cmdId.code = CmdId.fileRet.code ↔ cmdId = .fileRet := by
    cases cmdId <;> decide
  simp only [SaysYes, hpeer, hcmd, hmsg, hcode]

theorem Carries.offers {b : Buf} {cmdId : CmdId} {sender receiver : Int} {msg : List UInt8}
    (h : Carries b cmdId sender receiver msg) (a : Int) :
    (Offers a (Proto.peerId b, unframe (relayed b)) ↔ cmdId = .sendFileName ∧ sender = a ∧ receiver ≠ a) ∧
      offered (Proto.peerId b, unframe (relayed b)) = ⟨sender, receiver, msg⟩ := by
  obtain ⟨hpeer, hcmd, hsender, hmsg⟩ := h
  have hcode : cmdId.code = CmdId.sendFileName.code ↔ cmdId = .sendFileName := by
    cases cmdId <;> decide
  simp only [Offers, offered, hpeer, hcmd, hsender, hmsg, hcode, and_self]

theorem code_of_ofCode {c : Int} {k : CmdId} (h : CmdId.ofCode c = some k) : k.code = c := by
  simpa using List.find?_some h

variable {g : Grant}

theorem Clear.erase (h : Clear s g) (i : Nat) : Clear { s with net := s.net.eraseIdx i } g :=
  h.imp_right fun hnet x hx => hnet x (List.mem_of_mem_eraseIdx hx)

theorem Clear.accept (h : Clear s g) (g' : Grant) : Clear (s.accept g') g :=
  h.imp_left fun hg => List.mem_append_left _ hg

theorem Clear.post (h : Clear s g) {b : Buf} {cmdId : CmdId} {sender receiver : Int} {msg : List UInt8}
    (hb : Carries b cmdId sender receiver msg) (hyes : ¬ (receiver = g.sender ∧ cmdId = .fileRet ∧ msg = yes))
    (hoffer : cmdId = .sendFileName → sender = g.sender → ⟨sender, receiver, msg⟩ = g) : Clear (s.post b) g := by
  refine h.imp_right fun hnet x hx => ?_
  rcases List.mem_append.mp hx with hx | hx
  · exact hnet x hx
  · rw [List.mem_singleton.mp hx]
    obtain ⟨hoffers, hoffered⟩ := Carries.offers hb g.sender
    rw [Carries.saysYes hb, hoffers, hoffered]
    exact ⟨hyes, fun ⟨hcmd, hsender, _⟩ => hoffer hcmd hsender⟩

/-- The answer to an offer leaves a client clear that has made no other. -/
theorem Clear.recvFileDecide (h : Clear s g) {b : Int} (hb : wrap 4 b = b) {pack : Buf} (c : UInt8) (junk : Buf)
    (there : List UInt8)
    (hoffer : c = 'y'.toUInt8 → Proto.peerId pack = g.sender → g ∈ s.accepted ∨ offered (b, pack) = g) :
    Clear (s.recvFileDecide b pack c junk there) g := by
  have hid : wrap 4 (Proto.peerId pack) = Proto.peerId pack := wrap_peerId pack
  unfold FileOffers.recvFileDecide
  dsimp only
  split
  · rename_i hy
    by_cases hpeer : Proto.peerId pack = g.sender
    · refine Or.inl ?_
      show g ∈ s.accepted ++ [offered (b, pack)]
      rcases hoffer hy hpeer with hg | rfl
      · exact List.mem_append_left _ hg
      · exact List.mem_append_right _ (List.mem_singleton_self _)
    · exact Clear.post (Clear.accept h _) (answer_carries b junk _ (Or.inl rfl) hb hid) (fun hyes => hpeer hyes.1)
        fun hc => absurd hc (by decide)
  · split
    · exact Clear.post (by exact h) (answer_carries b junk _ (Or.inr rfl) hb hid)
        (fun hyes => absurd hyes.2.2 (by decide)) fun hc => absurd hc (by decide)
    · exact h

/-! ## What is open -/

@[simp] theorem setClient_same (client : Client) : (s.setClient a client).clients a = client := by
  simp [FileOffers.setClient]

theorem setClient_ne {b : Int} (client : Client) (h : a ≠ b) : (s.setClient b client).clients a = s.clients a := by
  simp [FileOffers.setClient, h]

/-- A client that goes on with the file and the receiver that it has. -/
theorem setClient_keeps {b : Int} {client : Client}
    (hpeer : client.sendFileToClientId = (s.clients b).sendFileToClientId)
    (hname : client.filename = (s.clients b).filename) (a : Int) :
    (s.setClient b client).current a = s.current a ∧ (s.setClient b client).live a = s.live a := by
  by_cases ha : a = b
  · subst ha
    simp [current, live, FileOffers.setClient, hpeer, hname]
  · simp [current, live, FileOffers.setClient, ha]

/-- An answer leaves what was offered last. -/
theorem recvFileDecide_current (b : Int) (pack : Buf) (c : UInt8) (junk : Buf) (there : List UInt8) (a : Int) :
    (s.recvFileDecide b pack c junk there).current a = s.current a := by
  have hset : (s.setClient b ((s.clients b).recvFileDecide c there)).current a = s.current a :=
    (setClient_keeps (by rfl) (by rfl) a).1
  unfold FileOffers.recvFileDecide
  split
  · exact hset
  · split
    · exact hset
    · exact hset

theorem fopen_live_ne {b : Int} (name : List UInt8) (h : a ≠ b) : (s.fopen b name).live a = s.live a := by
  simp [live, FileOffers.fopen, h]

theorem Consented.keeps (h : Consented a s) (hsent : s'.sent = s.sent) (haccepted : s.accepted ⊆ s'.accepted)
    (hlive : s'.live a = s.live a)
    (hst : (s'.clients a).startTransfer = true → (s.clients a).startTransfer = true) : Consented a s' where
  sent := fun g hg ha => haccepted (h.sent g (hsent ▸ hg) ha)
  sending := fun hs => by
    rw [hlive]
    exact haccepted (h.sending (hst hs))

structure Under (a : Int) (s : FileOffers) : Prop where
  consented : Consented a s
  clear : s.Clear (s.current a)

/-- A client that goes on with what it has in hand. -/
theorem Under.setClient (h : Under a s) {b : Int} {client : Client}
    (hpeer : client.sendFileToClientId = (s.clients b).sendFileToClientId)
    (hname : client.filename = (s.clients b).filename)
    (hst : client.startTransfer = true → (s.clients b).startTransfer = true) : Under a (s.setClient b client) := by
  obtain ⟨hcurrent, hlive⟩ := setClient_keeps hpeer hname a
  refine ⟨h.consented.keeps rfl (List.Subset.refl _) hlive ?_, ?_⟩
  · by_cases ha : a = b
    · subst ha
      rw [setClient_same]
      exact hst
    · rw [setClient_ne client ha]
      exact id
  · rw [hcurrent]
    exact h.clear

theorem Under.erase (h : Under a s) (i : Nat) : Under a { s with net := s.net.eraseIdx i } :=
  ⟨⟨h.consented.sent, h.consented.sending⟩, h.clear.erase i⟩

/-- An answer of another user, or one of `a` that opens nothing. -/
theorem Under.recvFileDecide (h : Under a s) {b : Int} (hb : wrap 4 b = b) {pack : Buf} {c : UInt8} (junk : Buf)
    (there : List UInt8) (hact : c = 'y'.toUInt8 → b ≠ a)
    (hoffer : Proto.peerId pack = a → b ≠ a → s.current a ∈ s.accepted ∨ offered (b, pack) = s.current a) :
    Under a (s.recvFileDecide b pack c junk there) := by
  have hset : Under a (s.setClient b ((s.clients b).recvFileDecide c there)) := h.setClient rfl rfl id
  refine ⟨?_, ?_⟩
  · unfold FileOffers.recvFileDecide
    dsimp only
    split
    · rename_i hy
      refine hset.consented.keeps rfl (List.subset_append_left _ _) ?_ id
      exact fopen_live_ne (s := s.setClient b ((s.clients b).recvFileDecide c there)) _ (hact hy).symm
    · split
      · exact hset.consented.keeps rfl (List.Subset.refl _) rfl id
      · exact hset.consented
  · rw [recvFileDecide_current]
    exact h.clear.recvFileDecide hb c junk there fun hy hpeer => hoffer hpeer (hact hy)

theorem Under.dealWithMessage (h : Under a s) (hi : Inv s) {b : Int} {pack : Buf} (hmem : (b, pack) ∈ s.net) (i : Nat)
    {c : UInt8} (junk : Buf) (there content : List UInt8)
    (hact : c = 'y'.toUInt8 → Proto.cmdId pack = CmdId.sendFileName.code → b ≠ a) :
    Under a ({ s with net := s.net.eraseIdx i }.dealWithMessage b pack c junk there content) := by
  have hb : wrap 4 b = b := hi.net _ hmem
  unfold FileOffers.dealWithMessage
  split
  · rename_i hcmd
    have hcode : Proto.cmdId pack = CmdId.sendFileName.code := (code_of_ofCode hcmd).symm
    refine (h.erase i).recvFileDecide hb junk there (fun hy => hact hy hcode) fun hpeer hne => ?_
    exact h.clear.imp_right fun hnet => (hnet _ hmem).2 ⟨hcode, hpeer, hne⟩
  · rename_i hcmd
    have hcode : Proto.cmdId pack = CmdId.fileRet.code := (code_of_ofCode hcmd).symm
    split
    · rename_i hyes
      by_cases hab : b = a
      · -- the file is opened that the last offer was of
        subst hab
        have hg : s.current b ∈ s.accepted := h.clear.resolve_right fun hnet => (hnet _ hmem).1 ⟨rfl, hcode, hyes⟩
        refine ⟨⟨h.consented.sent, fun _ => ?_⟩, Or.inl ?_⟩
        · simp only [live, FileOffers.fopen, setClient_same, Function.update_self]
          exact hg
        · show (FileOffers.setClient _ b _).current b ∈ s.accepted
          rw [(setClient_keeps (by exact rfl) (by exact rfl) b).1]
          exact hg
      · have hne : a ≠ b := Ne.symm hab
        have hclient : (Function.update s.clients b ((s.clients b).fileRet content)) a = s.clients a :=
          Function.update_of_ne hne _ _
        have hopened : (Function.update s.opened b (s.clients b).filename) a = s.opened a :=
          Function.update_of_ne hne _ _
        refine ⟨h.consented.keeps rfl (List.Subset.refl _) ?_ ?_, ?_⟩
        · simp only [live, FileOffers.fopen, FileOffers.setClient, hclient, hopened]
        · simp only [FileOffers.fopen, FileOffers.setClient, hclient]
          exact id
        · simp only [current, FileOffers.fopen, FileOffers.setClient, hclient]
          exact h.clear.erase i
    · exact h.erase i
  · exact h.erase i

theorem udpPeerId_udpsend (t : SendFile) (junk : Buf) (now count : Int) (context : List UInt8) :
    Proto.udpPeerId (t.udpsend junk now count context) = wrap 4 t.sendFileToClientId := by
  unfold SendFile.udpsend Proto.udpPeerId Mem.strcpy
  rw [Mem.getInt_write_ne _ _ (Or.inl (by decide))]
  simp (disch := decide) only [Mem.getInt_putInt_ne, Mem.getInt_putInt]

/-- A round sends nothing, or a chunk of the file that is open. -/
theorem sentOff_cases (hi : Inv s) {b : Int} {client : Client} {junk : Buf} {now : Int}
    (hround : (s.clients b).startSendFile junk now = some client) :
    s.sentOff b client = s.setClient b client ∨ (s.clients b).startTransfer = true ∧
      s.sentOff b client = { s.setClient b client with sent := s.sent ++ [s.live b] } := by
  unfold FileOffers.sentOff
  cases Client.startSendFile_round hround with
  | idle hst =>
    rw [List.drop_length]
    exact Or.inl rfl
  | closed hst hpf =>
    rw [List.drop_length]
    exact Or.inl rfl
  | done pf hst hpf heof =>
    rw [List.drop_length]
    exact Or.inl rfl
  | sent pf count hst hpf heof hcount =>
    rw [List.drop_left]
    refine Or.inr ⟨hst, ?_⟩
    dsimp only
    rw [Client.nextChunk, udpPeerId_udpsend]
    show ({ s.setClient b _ with sent := s.sent ++ [⟨b, wrap 4 (s.clients b).sendFileToClientId, _⟩] } : FileOffers) = _
    rw [hi.ints b]
    rfl

theorem Under.sentOff (h : Under a s) (hi : Inv s) {b : Int} {client : Client} {junk : Buf} {now : Int}
    (hround : (s.clients b).startSendFile junk now = some client) : Under a (s.sentOff b client) := by
  obtain ⟨hpeer, hname, hst⟩ := round_keeps hround
  have hset : Under a (s.setClient b client) := h.setClient hpeer hname hst
  rcases s.sentOff_cases hi hround with heq | ⟨hsending, heq⟩
  · rw [heq]
    exact hset
  · rw [heq]
    refine ⟨⟨fun g hg ha => ?_, hset.consented.sending⟩, hset.clear⟩
    rcases List.mem_append.mp hg with hg | hg
    · exact hset.consented.sent g hg ha
    · obtain rfl := List.mem_singleton.mp hg
      obtain rfl : b = a := ha
      exact h.consented.sending hsending

/-- While its user does not act `a` goes on with what it has in hand. -/
theorem Under.step {e : Ev} (h : Under a s) (hi : Inv s) (he : ¬ Acts a s e) (hs : s.step e = some s') :
    Under a s' := by
  cases e with
  | printCmdIdList b junk filename sayToClientId =>
    have hba : a ≠ b := Ne.symm he
    simp only [FileOffers.step] at hs
    split at hs
    · rename_i hints
      obtain rfl := Option.some.inj hs
      have hclient := setClient_ne (s := s) ((s.clients b).chooseFile filename sayToClientId) hba
      have hcarries := offer_carries b junk sayToClientId hints.2.2 hints.1 hints.2.1
      refine ⟨h.consented.keeps rfl (List.Subset.refl _) ?_ ?_, ?_⟩
      · simp only [live, FileOffers.post, hclient]
        rfl
      · simp only [FileOffers.post, hclient]
        exact id
      · have hcur : ((s.setClient b ((s.clients b).chooseFile filename sayToClientId)).post
            (Mailbox.draft junk (ChatClient.printCmdIdList b junk (.three filename sayToClientId)))).current a =
            s.current a := by
          simp only [current, FileOffers.post, hclient]
        rw [hcur]
        exact Clear.post (by exact h.clear) hcarries (fun ⟨_, hc, _⟩ => (by cases hc)) fun _ hsender =>
          absurd hsender.symm hba
    · cases hs
  | dealWithMessage i c junk there content =>
    simp only [FileOffers.step] at hs
    split at hs
    · cases hs
    · rename_i b pack hget
      obtain rfl := Option.some.inj hs
      refine h.dealWithMessage hi (List.mem_of_getElem? hget) i junk there content fun hy hcode hb => he ?_
      exact ⟨hy, pack, hb ▸ hget, hcode⟩
  | dealWithUdpSendFile b pack =>
    simp only [FileOffers.step] at hs
    split at hs
    · cases hs
    · obtain rfl := Option.some.inj hs
      exact h.setClient rfl rfl id
  | startSendFile b junk now =>
    simp only [FileOffers.step] at hs
    split at hs
    · cases hs
    · rename_i client hround
      split at hs
      · cases hs
      · obtain rfl := Option.some.inj hs
        exact h.sentOff hi hround

/-! ## What the user does -/

/-- An offer of `a` changes what it has in hand, and whom it sends to. -/
theorem under_iff_offer {junk : Buf} {filename : List UInt8} {sayToClientId : Int} (h : Under a s)
    (hs : s.step (.printCmdIdList a junk filename sayToClientId) = some s') :
    Under a s' ↔ s.Clear ⟨a, sayToClientId, filename⟩ ∧
      ((s.clients a).startTransfer = true → ⟨a, sayToClientId, s.opened a⟩ ∈ s.accepted) := by
  simp only [FileOffers.step] at hs
  split at hs
  · rename_i hints
    obtain rfl := Option.some.inj hs
    have hcarries := offer_carries a junk sayToClientId hints.2.2 hints.1 hints.2.1
    obtain ⟨b, hb⟩ : ∃ b, b = Mailbox.draft junk (ChatClient.printCmdIdList a junk (.three filename sayToClientId)) :=
      ⟨_, rfl⟩
    rw [← hb] at hcarries ⊢
    obtain ⟨t, ht⟩ : ∃ t, t = s.setClient a ((s.clients a).chooseFile filename sayToClientId) := ⟨_, rfl⟩
    rw [← ht]
    have hclient : t.clients a = (s.clients a).chooseFile filename sayToClientId := by rw [ht, setClient_same]
    have hcur : (t.post b).current a = ⟨a, sayToClientId, filename⟩ := by
      simp only [current, FileOffers.post, hclient]
      rfl
    have hlive : (t.post b).live a = ⟨a, sayToClientId, s.opened a⟩ := by
      simp only [live, FileOffers.post, hclient]
      rw [ht]
      rfl
    have hst : ((t.post b).clients a).startTransfer = (s.clients a).startTransfer := by
      simp only [FileOffers.post, hclient]
      rfl
    have haccepted : (t.post b).accepted = s.accepted := by rw [ht]; rfl
    have hnet : (t.post b).net = s.net ++ [(Proto.peerId b, unframe (relayed b))] := by rw [ht]; rfl
    refine ⟨fun hu => ⟨?_, fun hsending => ?_⟩, fun ⟨hclear, hsending⟩ => ⟨⟨?_, fun hs => ?_⟩, ?_⟩⟩
    · have hclear := hu.clear
      rw [hcur] at hclear
      unfold Clear at hclear
      rw [haccepted, hnet] at hclear
      exact hclear.imp_right fun hall x hx => hall x (List.mem_append_left _ hx)
    · rw [← hlive, ← haccepted]
      exact hu.consented.sending (hst.trans hsending)
    · rw [haccepted, show (t.post b).sent = s.sent by rw [ht]; rfl]
      exact h.consented.sent
    · rw [hlive, haccepted]
      exact hsending (hst.symm.trans hs)
    · rw [hcur]
      have ht' : t.Clear ⟨a, sayToClientId, filename⟩ := by
        rw [ht]
        exact hclear
      exact ht'.post hcarries (fun ⟨_, hc, _⟩ => (by cases hc)) fun _ _ => rfl
  · cases hs

theorem recvFileDecide_yes (s : FileOffers) (b : Int) (pack junk : Buf) (there : List UInt8) :
    s.recvFileDecide b pack 'y'.toUInt8 junk there =
      (((s.setClient b ((s.clients b).recvFileDecide 'y'.toUInt8 there)).fopen b (received (msgText pack))).accept
        (offered (b, pack))).post (Mailbox.draft junk (returnYesorNo b junk yes (Proto.peerId pack))) := by
  unfold FileOffers.recvFileDecide
  dsimp only
  rw [if_pos rfl]

/-- A yes is noted, and on its way. -/
theorem recvFileDecide_accepted (b : Int) (pack junk : Buf) (there : List UInt8) :
    (s.recvFileDecide b pack 'y'.toUInt8 junk there).accepted = s.accepted ++ [offered (b, pack)] := by
  rw [recvFileDecide_yes]
  rfl

theorem recvFileDecide_answers (b : Int) (pack junk : Buf) (there : List UInt8) :
    (Proto.peerId (Mailbox.draft junk (returnYesorNo b junk yes (Proto.peerId pack))),
      unframe (relayed (Mailbox.draft junk (returnYesorNo b junk yes (Proto.peerId pack))))) ∈
      (s.recvFileDecide b pack 'y'.toUInt8 junk there).net := by
  rw [recvFileDecide_yes]
  exact List.mem_append_right _ (List.mem_singleton_self _)

theorem deal_offer {b : Int} {pack : Buf} (hcmd : Proto.cmdId pack = CmdId.sendFileName.code) (c : UInt8) (junk : Buf)
    (there content : List UInt8) :
    s.dealWithMessage b pack c junk there content = s.recvFileDecide b pack c junk there := by
  unfold FileOffers.dealWithMessage
  rw [hcmd, CmdId.ofCode_code]

theorem deal_yes {b : Int} {pack : Buf} (hcmd : Proto.cmdId pack = CmdId.fileRet.code) (htext : msgText pack = yes)
    (c : UInt8) (junk : Buf) (there content : List UInt8) :
    s.dealWithMessage b pack c junk there content =
      (s.setClient b ((s.clients b).fileRet content)).fopen b (s.clients b).filename := by
  unfold FileOffers.dealWithMessage
  rw [hcmd, CmdId.ofCode_code]
  dsimp only
  rw [if_pos htext]

theorem step_deal {i : Nat} {b : Int} {pack : Buf} (hget : s.net[i]? = some (b, pack)) (c : UInt8) (junk : Buf)
    (there content : List UInt8) : s.step (.dealWithMessage i c junk there content) =
      some ({ s with net := s.net.eraseIdx i }.dealWithMessage b pack c junk there content) := by
  simp only [FileOffers.step, hget]

/-- The file that a client accepts is not the one it was offered. -/
theorem received_ne (info : List UInt8) : info ≠ received info := by
  intro h
  have := congrArg List.length h
  simp [received] at this

/-- A yes of `a` opens another file. -/
theorem under_iff_accept {i : Nat} {pack : Buf} {junk : Buf} {there content : List UInt8} (hi : Inv s) (h : Under a s)
    (hget : s.net[i]? = some (a, pack)) (hcmd : Proto.cmdId pack = CmdId.sendFileName.code)
    (hs : s.step (.dealWithMessage i 'y'.toUInt8 junk there content) = some s') :
    Under a s' ↔ (Proto.peerId pack = a → s.current a ∈ s.accepted ∨ offered (a, pack) = s.current a) ∧
      ((s.clients a).startTransfer = true →
        ⟨a, (s.clients a).sendFileToClientId, received (msgText pack)⟩ ∈ s.accepted) := by
  have ha : wrap 4 a = a := hi.net _ (List.mem_of_getElem? hget)
  have hs' := (step_deal hget _ _ _ _).symm.trans hs
  rw [deal_offer hcmd] at hs'
  obtain rfl := Option.some.inj hs'
  have hclear : (∀ hpeer : Proto.peerId pack = a, s.current a ∈ s.accepted ∨ offered (a, pack) = s.current a) →
      Clear ({ s with net := s.net.eraseIdx i }.recvFileDecide a pack 'y'.toUInt8 junk there) (s.current a) :=
    fun hoffer => (h.clear.erase i).recvFileDecide ha _ junk there fun _ => hoffer
  have hcarries := answer_carries a junk (Proto.peerId pack) (Or.inl rfl) ha (wrap_peerId pack)
  have hanswer := recvFileDecide_answers (s := { s with net := s.net.eraseIdx i }) a pack junk there
  generalize ht : FileOffers.recvFileDecide _ a pack _ junk there = t at hclear hanswer ⊢
  have hcur : t.current a = s.current a := by
    rw [← ht, recvFileDecide_current]
    rfl
  have haccepted : t.accepted = s.accepted ++ [offered (a, pack)] := by rw [← ht, recvFileDecide_accepted]
  rw [recvFileDecide_yes] at ht
  have hlive : t.live a = ⟨a, (s.clients a).sendFileToClientId, received (msgText pack)⟩ := by
    simp [← ht, live, FileOffers.post, FileOffers.accept, FileOffers.fopen, FileOffers.setClient, Client.recvFileDecide]
  have hst : (t.clients a).startTransfer = (s.clients a).startTransfer := by
    simp [← ht, FileOffers.post, FileOffers.accept, FileOffers.fopen, FileOffers.setClient, Client.recvFileDecide]
  have hsent : t.sent = s.sent := by rw [← ht]; rfl
  refine ⟨fun hu => ⟨fun hpeer => ?_, fun hsending => ?_⟩, fun ⟨hoffer, hsending⟩ =>
    ⟨⟨fun g hg hga => ?_, fun hs => ?_⟩, ?_⟩⟩
  · -- its own "Y" is on its way to it
    have hyes := (hcarries.saysYes a).mpr ⟨hpeer, rfl, rfl⟩
    have hmem : s.current a ∈ s.accepted ++ [offered (a, pack)] := by
      rw [← haccepted, ← hcur]
      exact hu.clear.resolve_right fun hnet => (hnet _ hanswer).1 hyes
    rcases List.mem_append.mp hmem with hmem | hmem
    · exact Or.inl hmem
    · exact Or.inr (List.mem_singleton.mp hmem).symm
  · have hmem := hu.consented.sending (hst.trans hsending)
    rw [hlive, haccepted] at hmem
    rcases List.mem_append.mp hmem with hmem | hmem
    · exact hmem
    · have hsame := List.mem_singleton.mp hmem
      simp only [FileOffers.offered, Grant.mk.injEq] at hsame
      exact absurd hsame.2.2.symm (received_ne (msgText pack))
  · rw [haccepted]
    exact List.mem_append_left _ (h.consented.sent g (hsent ▸ hg) hga)
  · rw [hlive, haccepted]
    exact List.mem_append_left _ (hsending (hst.symm.trans hs))
  · rw [hcur]
    exact hclear hoffer

/-! ## What may come of it -/

theorem Safe.consented (h : Safe a s) : Consented a s := h [] trivial

theorem Safe.step {e : Ev} (h : Safe a s) (he : ¬ Acts a s e) (hs : s.step e = some s') : Safe a s' := by
  intro fs hfs
  refine (h (e :: fs) fun t ht => ⟨he, ?_⟩).2 s' hs
  obtain rfl := Option.some.inj (hs.symm.trans ht)
  exact hfs

/-- A "Y" that is on its way opens what the client last offered. -/
theorem Safe.answered (h : Safe a s) {x : Int × Buf} (hx : x ∈ s.net) (hyes : SaysYes a x) :
    s.current a ∈ s.accepted := by
  obtain ⟨b, pack⟩ := x
  obtain ⟨rfl, hcmd, htext⟩ := hyes
  obtain ⟨i, hget⟩ := List.getElem?_of_mem hx
  have hs := step_deal hget 0 (fun _ => 0) [] []
  rw [deal_yes hcmd htext] at hs
  have hact : ¬ Acts b s (.dealWithMessage i 0 (fun _ => 0) [] []) := fun hact => absurd hact.1 (by decide)
  have hmem := (h.step hact hs).consented.sending ?_
  · simpa [live, current, FileOffers.fopen, FileOffers.setClient, Client.fileRet] using hmem
  · simp [FileOffers.fopen, FileOffers.setClient, Client.fileRet]

/-- So does the answer to an offer. -/
theorem Safe.offered (h : Safe a s) (hi : Inv s) {x : Int × Buf} (hx : x ∈ s.net) (hoffer : Offers a x) :
    s.current a ∈ s.accepted ∨ offered x = s.current a := by
  obtain ⟨b, pack⟩ := x
  simp only [Offers] at hoffer
  obtain ⟨hcmd, rfl, hne⟩ := hoffer
  obtain ⟨i, hget⟩ := List.getElem?_of_mem hx
  have hs := step_deal hget 'y'.toUInt8 (fun _ => 0) [] []
  rw [deal_offer hcmd] at hs
  have hcarries := answer_carries b (fun _ => 0) (Proto.peerId pack) (Or.inl rfl) (hi.net _ hx) (wrap_peerId pack)
  have hact : ¬ Acts (Proto.peerId pack) s (.dealWithMessage i 'y'.toUInt8 (fun _ => 0) [] []) := by
    rintro ⟨-, pack', hget', -⟩
    exact hne (congrArg Prod.fst (Option.some.inj (hget.symm.trans hget')))
  have hyes := (hcarries.saysYes (Proto.peerId pack)).mpr ⟨rfl, rfl, rfl⟩
  have hmem := (h.step hact hs).answered (recvFileDecide_answers b pack (fun _ => 0) []) hyes
  rw [recvFileDecide_current, recvFileDecide_accepted] at hmem
  rcases List.mem_append.mp hmem with hmem | hmem
  · exact Or.inl hmem
  · exact Or.inr (List.mem_singleton.mp hmem).symm

/-- What is safe is what has nothing under way but what is accepted, or in hand. -/
theorem safe_iff (hi : Inv s) : Safe a s ↔ Under a s := by
  refine ⟨fun h => ⟨h.consented, ?_⟩, fun h fs hfs => ?_⟩
  · by_cases hg : s.current a ∈ s.accepted
    · exact Or.inl hg
    · exact Or.inr fun x hx => ⟨fun hyes => hg (h.answered hx hyes), fun hoffer =>
        (h.offered hi hx hoffer).resolve_left hg⟩
  · induction fs generalizing s with
    | nil => exact h.consented
    | cons e fs ih =>
      refine ⟨h.consented, fun t hs => ?_⟩
      obtain ⟨he, hfs⟩ := hfs t hs
      exact ih (step_inv hi hs) (h.step hi he hs) hfs

theorem init_under (left : Int → Int × List UInt8) (a : Int) : Under a (init left) :=
  ⟨⟨fun _ hg => absurd hg List.not_mem_nil, fun hs => (by cases hs)⟩, Or.inr fun _ hx => absurd hx List.not_mem_nil⟩

/-- What its user does is all that matters. -/
theorem under_iff_settled {e : Ev} (hi : Inv s) (h : Under a s) (hs : s.step e = some s') :
    Under a s' ↔ Settled a s e := by
  by_cases he : Acts a s e
  · cases e with
    | printCmdIdList b junk filename sayToClientId =>
      obtain rfl : b = a := he
      exact (under_iff_offer h hs).trans (by simp only [Settled, forall_const])
    | dealWithMessage i c junk there content =>
      obtain ⟨rfl, pack, hget, hcmd⟩ := he
      refine (under_iff_accept hi h hget hcmd hs).trans ⟨fun hsettled _ pack' hget' _ => ?_, fun hsettled => ?_⟩
      · obtain rfl := congrArg Prod.snd (Option.some.inj (hget.symm.trans hget'))
        exact hsettled
      · exact hsettled rfl pack hget hcmd
    | dealWithUdpSendFile b pack => cases he
    | startSendFile b junk now => cases he
  · refine ⟨fun _ => ?_, fun _ => h.step hi he hs⟩
    cases e with
    | printCmdIdList b junk filename sayToClientId => exact fun hb => absurd hb he
    | dealWithMessage i c junk there content => exact fun hy pack hget hcmd => absurd ⟨hy, pack, hget, hcmd⟩ he
    | dealWithUdpSendFile b pack => trivial
    | startSendFile b junk now => trivial

/-- A file goes only to somebody who accepted it, whatever the threads and the others do,
    exactly in the runs in which its user offers and accepts files one at a time. -/
theorem consented_iff_settled (a : Int) (left : Int → Int × List UInt8) (es : List Ev) :
    Always step (Safe a) (init left) es ↔ Along step (Settled a) (init left) es := by
  refine always_iff_along (I := fun s => Inv s ∧ Under a s) (fun s hs => (safe_iff hs.1).mpr hs.2) ?_
    ⟨init_inv left, init_under left a⟩
  intro s e s' hs h
  have hinv := step_inv hs.1 h
  have hiff := under_iff_settled hs.1 hs.2 h
  exact ⟨fun hC => ⟨hinv, hiff.mpr hC⟩, fun hP => hiff.mp ((safe_iff hinv).mp hP)⟩

def twoOffers : List Ev :=
  [.printCmdIdList 1 (fun _ => 0) ['a'.toUInt8] 2, .printCmdIdList 1 (fun _ => 0) ['b'.toUInt8] 3,
    .dealWithMessage 0 'y'.toUInt8 (fun _ => 0) [] [], .dealWithMessage 1 0 (fun _ => 0) [] [0],
    .startSendFile 1 (fun _ => 0) 0]

/-- User 1 offers a file to 2 and then another to 3; 2 says yes. User 3 is sent the second,
    and has not answered. -/
theorem the_second_offer_is_sent :
    (run step (init fun _ => (0, [])) twoOffers).map (fun s => (s.accepted, s.sent)) =
      some ([⟨1, 2, ['a'.toUInt8]⟩], [⟨1, 3, ['b'.toUInt8]⟩]) := by
  decide +kernel

end

end FileOffers

end GroupeChat
