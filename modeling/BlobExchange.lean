import BlobExchange.Describe
import BlobExchange.Session.Basic
import BlobExchange.Settings.Text
import BlobExchange.Proofs.Handles
import BlobExchange.Proofs.Reclaiming
import BlobExchange.Proofs.Shelving
import BlobExchange.Proofs.Synchrony
import BlobExchange.Proofs.Reports
import BlobExchange.Proofs.Content
import BlobExchange.Proofs.BlobStanding
import BlobExchange.Proofs.Access
import BlobExchange.Proofs.HandleAgreement
import BlobExchange.Proofs.Claims
import BlobExchange.Proofs.Payload
import BlobExchange.Proofs.BestFit
import BlobExchange.Proofs.AlikeExchanges
import BlobExchange.Proofs.AlikeOperations
import BlobExchange.Proofs.LateReports
import BlobExchange.Proofs.Acts
import BlobExchange.Proofs.IdleOrder
import BlobExchange.Proofs.BufferChoice
import BlobExchange.Proofs.Conservation
import BlobExchange.Proofs.TwinBuffers
import BlobExchange.Proofs.Reuse
import BlobExchange.Proofs.ReclaimsOldest
import BlobExchange.Proofs.AllOrNothing
import BlobExchange.Proofs.Ending
import BlobExchange.Proofs.IdleBudget
import BlobExchange.Proofs.ReclaimsAll
import BlobExchange.Proofs.Numbering
import BlobExchange.Proofs.Overflowing
import BlobExchange.Proofs.PoolLine
import BlobExchange.Proofs.BufferLifetime
import BlobExchange.Proofs.FillRounds
import BlobExchange.Proofs.FillAccounts
import BlobExchange.Proofs.Appending
import BlobExchange.Proofs.DrainOffers
import BlobExchange.Proofs.ShelfTrials
import BlobExchange.Proofs.Scripting
import BlobExchange.Proofs.Capacity
import BlobExchange.Proofs.FitsGranted
import BlobExchange.Proofs.IdentifierCodec
import BlobExchange.Proofs.Wrapping
import BlobExchange.Proofs.PoolGrowth
import BlobExchange.Proofs.RegistryCalls
