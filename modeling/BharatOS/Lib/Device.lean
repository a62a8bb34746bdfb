namespace BharatOS

/-- What is asked of a device that holds writes back until it is flushed. -/
inductive DevOp (W : Type)
  | write (w : W)
  | flush

/-- What may be on the device when it is next read. Its user was interrupted in the operations,
before which the writes in `pending` were not flushed; a crash loses any of these. -/
inductive Survives {σ W : Type} (apply : σ → W → σ) : σ → List W → List (DevOp W) → σ → Prop
  | interrupted {d : σ} {pending kept : List W} {ops : List (DevOp W)} (some : kept.Sublist pending) :
      Survives apply d pending ops (kept.foldl apply d)
  | write {d d' : σ} {pending : List W} {w : W} {ops : List (DevOp W)}
      (later : Survives apply d (pending ++ [w]) ops d') :
      Survives apply d pending (.write w :: ops) d'
  | flush {d d' : σ} {pending : List W} {ops : List (DevOp W)}
      (later : Survives apply (pending.foldl apply d) [] ops d') :
      Survives apply d pending (.flush :: ops) d'

end BharatOS
